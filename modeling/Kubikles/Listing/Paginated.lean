/-
Listing in pages (paginatedList in pkg/k8s/client.go, listpages.go).

# Calls

The server answers the calls in their order: the n-th call to `fetchPage` is
the n-th page of the list. A context is read at instants: before the n-th
call at instant 2n, after it at 2n + 1. Once it has ended it stays so.
-/
import Mathlib.Data.List.Basic

namespace Listing

variable {T : Type}

/-- `metav1.ListOptions`. -/
structure ListOptions where
  limit : Int := 0
  continueToken : String := ""
deriving DecidableEq, Repr

/-- What `fetchPage` returns without an error. -/
structure Answer (T : Type) where
  items : List T
  continueToken : String
  remaining : Option Int64

/-- A context: its error at an instant, and whether it has an observer. -/
structure Ctx where
  err : Nat → Option String
  stays : ∀ i j : Nat, i ≤ j → err i ≠ none → err j ≠ none
  observed : Bool

structure ListPage (T : Type) where
  items : List T
  loaded : Nat
  total : Option Int64
deriving DecidableEq

/-- A call of `onProgress`. -/
structure Progress where
  loaded : Nat
  total : Int64
deriving DecidableEq

/-- What a listing returns, and what it tells on its way. -/
structure Listed (T : Type) where
  result : Except String (List T)
  pages : List (ListPage T) := []
  progress : List Progress := []

/-- `emitListPage`, at an instant: the calls of the observer. -/
def emitListPage (ctx : Ctx) (now : Nat) (items : List T) (loaded : Nat)
    (remaining : Option Int64) (more : Bool) : List (ListPage T) :=
  if !ctx.observed || (ctx.err now).isSome then []
  else
    let total := match remaining with
      | some remaining => some (Int64.ofNat loaded + remaining)
      | none => if more then none else some (Int64.ofNat loaded)
    [⟨items, loaded, total⟩]

/-- What `onProgress` is told after a page. -/
def reported (loaded : Nat) (remaining : Option Int64) : Progress where
  loaded := loaded
  total := match remaining with
    | some remaining => Int64.ofNat loaded + remaining
    | none => Int64.ofNat loaded

variable (ctx : Ctx)
  (fetchPage : Nat → ListOptions → Except String (Answer T))

/-- The loop, for so many pages at most, from the n-th page on. -/
def loop (pageSize : Int) : Nat → Nat → String → List T →
    Option (Listed T)
  | 0, _, _, _ => none
  | fuel + 1, n, continueToken, allItems =>
    match ctx.err (2 * n) with
    | some err => some { result := .error err }
    | none =>
      match fetchPage n ⟨pageSize, continueToken⟩ with
      | .error err => some { result := .error err }
      | .ok answer =>
        let pages := n + 1
        let allItems := allItems ++ answer.items
        let more := answer.continueToken ≠ ""
        let emitted :=
          if 1 < pages ∨ more then
            emitListPage ctx (2 * n + 1) answer.items
              allItems.length answer.remaining more
          else []
        let progress := reported allItems.length answer.remaining
        if more then
          (loop pageSize fuel pages answer.continueToken
            allItems).map fun rest =>
              { result := rest.result
                pages := emitted ++ rest.pages
                progress := progress :: rest.progress }
        else
          some { result := .ok allItems, pages := emitted
                 progress := [progress] }

/-- `paginatedList`, for so many pages at most. -/
def paginatedList (pageSize : Int) (onProgress : Bool) (fuel : Nat) :
    Option (Listed T) :=
  if onProgress then loop ctx fetchPage pageSize fuel 0 "" []
  else some { result := (fetchPage 0 {}).map Answer.items }

end Listing
