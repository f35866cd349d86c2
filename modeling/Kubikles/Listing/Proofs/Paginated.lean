/-
A listing in pages is the plain listing.

# The argument

A server answers the n-th call with the n-th page and the token of the next
one, as long as it does not fail (`Serves`). Every turn of the loop keeps
what has been listed equal to the pages so far, and what is emitted from a
turn on is a prefix of the pages from there on (`loop_eq`): a context that
has ended at one page stays so, and stops the loop before the next. Only
behind the last page there is no check left, and there a context that ends
keeps that page from the observer, and not from the result.
-/
import Kubikles.Listing.Paginated

namespace Listing

variable {T : Type} {ctx : Ctx}
  {fetchPage : Nat → ListOptions → Except String (Answer T)}
  {pageSize : Int} {pages : List (List T)} {token : Nat → String}

-- ======== the server

def Fails (fetchPage : Nat → ListOptions → Except String (Answer T))
    (pageSize : Int) (token : Nat → String) (n : Nat) : Prop :=
  ∃ err, fetchPage n ⟨pageSize, token n⟩ = .error err

/-- The server answers with these pages, and has a token for each but the
first; or it fails. -/
structure Serves (fetchPage : Nat → ListOptions → Except String (Answer T))
    (pageSize : Int) (pages : List (List T)) (token : Nat → String) :
    Prop where
  nonempty : 0 < pages.length
  first : token 0 = ""
  more : ∀ n : Nat, 0 < n → n < pages.length → token n ≠ ""
  last : token pages.length = ""
  answer : ∀ (n : Nat) (h : n < pages.length),
    Fails fetchPage pageSize token n
      ∨ ∃ remaining, fetchPage n ⟨pageSize, token n⟩
        = .ok ⟨pages[n], token (n + 1), remaining⟩

/-- The loop stops at a page: the context has ended, or the call fails. -/
def Stops (ctx : Ctx)
    (fetchPage : Nat → ListOptions → Except String (Answer T))
    (pageSize : Int) (token : Nat → String) (n : Nat) : Prop :=
  ctx.err (2 * n) ≠ none ∨ Fails fetchPage pageSize token n

/-- The pages, each with how many items there are up to its end. -/
def deliveries (pages : List (List T)) : List (List T × Nat) :=
  pages.mapIdx fun n page => (page, (pages.take (n + 1)).flatten.length)

def ListPage.delivery (p : ListPage T) : List T × Nat := (p.items, p.loaded)

/-- What the loop does from a page on. -/
structure ListsFrom (ctx : Ctx)
    (fetchPage : Nat → ListOptions → Except String (Answer T))
    (pageSize : Int) (pages : List (List T)) (token : Nat → String)
    (n : Nat) (listed : Listed T) : Prop where
  ok : (∀ i : Nat, n ≤ i → i < pages.length →
      ¬ Stops ctx fetchPage pageSize token i) →
    listed.result = .ok pages.flatten
  error : ∀ i : Nat, n ≤ i → i < pages.length →
    Stops ctx fetchPage pageSize token i → ∃ err, listed.result = .error err
  single : pages.length = 1 → listed.pages = []
  emitted : listed.pages.map ListPage.delivery <+: (deliveries pages).drop n
  silent : ctx.observed = false ∨ ctx.err (2 * n) ≠ none →
    listed.pages = []
  whole : 1 < pages.length → listed.result = .ok pages.flatten →
    ctx.observed = true → ctx.err (2 * pages.length - 1) = none →
      listed.pages.map ListPage.delivery = (deliveries pages).drop n

-- ======== a turn

theorem emitListPage_delivery {now : Nat} {items : List T} {loaded : Nat}
    {remaining : Option Int64} {more : Bool} :
    (emitListPage ctx now items loaded remaining more).map
        ListPage.delivery
      = if ctx.observed = true ∧ ctx.err now = none then [(items, loaded)]
        else [] := by
  unfold emitListPage
  by_cases hobserved : ctx.observed = true
  · cases hctx : ctx.err now with
    | none => simp [hobserved, ListPage.delivery]
    | some err => simp
  · simp [hobserved]

theorem emitListPage_unobserved {now : Nat} {items : List T} {loaded : Nat}
    {remaining : Option Int64} {more : Bool} (h : ctx.observed = false) :
    emitListPage ctx now items loaded remaining more = [] := by
  unfold emitListPage
  rw [h]
  rfl

theorem ListsFrom.of_stops {n : Nat} (err : String) (hn : n < pages.length)
    (h : Stops ctx fetchPage pageSize token n) :
    ListsFrom ctx fetchPage pageSize pages token n
      { result := .error err } where
  ok hall := absurd h (hall n (Nat.le_refl n) hn)
  error _ _ _ _ := ⟨err, rfl⟩
  single _ := rfl
  emitted := List.nil_prefix
  silent _ := rfl
  whole _ hresult := by simp at hresult

theorem deliveries_drop {n : Nat} (hn : n < pages.length) :
    (deliveries pages).drop n
      = (pages[n], (pages.take (n + 1)).flatten.length)
        :: (deliveries pages).drop (n + 1) := by
  have hlength : n < (deliveries pages).length := by
    simp [deliveries]
    omega
  rw [List.drop_eq_getElem_cons hlength]
  simp [deliveries]

theorem ListsFrom.last_page {n : Nat} (hn : n + 1 = pages.length)
    (hstops : ¬ Stops ctx fetchPage pageSize token n) {loaded : Nat}
    (hloaded : loaded = (pages.take (n + 1)).flatten.length)
    (remaining : Option Int64) (progress : List Progress) :
    ListsFrom ctx fetchPage pageSize pages token n
      { result := .ok pages.flatten
        pages := if 1 < n + 1 then
            emitListPage ctx (2 * n + 1) pages[n] loaded remaining false
          else []
        progress } where
  ok _ := rfl
  error i hi hlt hstop := by
    obtain rfl : i = n := by omega
    exact absurd hstop hstops
  single hone := by
    rw [if_neg (by omega)]
  emitted := by
    rw [deliveries_drop (by omega)]
    split
    · rw [emitListPage_delivery, hloaded]
      split
      · simp
      · exact List.nil_prefix
    · exact List.nil_prefix
  silent h := by
    split
    · exact emitListPage_unobserved
        (h.resolve_right fun hctx => hstops (.inl hctx))
    · rfl
  whole hmore _ hobserved hctx := by
    rw [if_pos (by omega), emitListPage_delivery, deliveries_drop (by omega),
      hloaded, if_pos ⟨hobserved, by rwa [show 2 * n + 1
        = 2 * pages.length - 1 by omega]⟩]
    simp [deliveries]
    omega

/-- A page before is emitted, and the loop goes on. -/
theorem ListsFrom.more_pages {n : Nat} (hn : n + 1 < pages.length)
    (hstops : ¬ Stops ctx fetchPage pageSize token n) {loaded : Nat}
    (hloaded : loaded = (pages.take (n + 1)).flatten.length)
    (remaining : Option Int64) (progress : Progress) {rest : Listed T}
    (hrest : ListsFrom ctx fetchPage pageSize pages token (n + 1) rest) :
    ListsFrom ctx fetchPage pageSize pages token n
      { result := rest.result
        pages := emitListPage ctx (2 * n + 1) pages[n] loaded remaining true
          ++ rest.pages
        progress := progress :: rest.progress } where
  ok hall := hrest.ok fun i hi hlt => hall i (by omega) hlt
  error i hi hlt hstop := by
    rcases Nat.eq_or_lt_of_le hi with rfl | hi
    · exact absurd hstop hstops
    · exact hrest.error i hi hlt hstop
  single hone := by omega
  emitted := by
    rw [List.map_append, emitListPage_delivery, deliveries_drop (by omega),
      hloaded]
    split
    · exact (List.prefix_cons_inj _).mpr hrest.emitted
    next h =>
      -- The context has ended, and the loop stops before the next page.
      have hsilent : rest.pages = [] := by
        apply hrest.silent
        by_cases hobserved : ctx.observed = true
        · refine .inr (ctx.stays (2 * n + 1) _ (by omega) fun hnone => ?_)
          exact h ⟨hobserved, hnone⟩
        · exact .inl (by simpa using hobserved)
      rw [hsilent]
      exact List.nil_prefix
  silent h := by
    have hobserved := h.resolve_right fun hctx => hstops (.inl hctx)
    rw [emitListPage_unobserved hobserved, hrest.silent (.inl hobserved)]
    rfl
  whole hmore hresult hobserved hctx := by
    have hnow : ctx.err (2 * n + 1) = none := by
      by_contra hended
      exact ctx.stays _ _ (by omega) hended hctx
    rw [List.map_append, emitListPage_delivery, if_pos ⟨hobserved, hnow⟩,
      deliveries_drop (by omega), hrest.whole hmore hresult hobserved hctx,
      hloaded]
    rfl

theorem flatten_take_succ {n : Nat} (hn : n < pages.length) :
    (pages.take n).flatten ++ pages[n] = (pages.take (n + 1)).flatten := by
  rw [List.take_succ_eq_append_getElem hn, List.flatten_append]
  simp

theorem loop_last {n : Nat} (fuel : Nat) {continueToken : String}
    (allItems : List T) {items : List T} {remaining : Option Int64}
    (hctx : ctx.err (2 * n) = none)
    (hcall : fetchPage n ⟨pageSize, continueToken⟩
      = .ok ⟨items, "", remaining⟩) :
    loop ctx fetchPage pageSize (fuel + 1) n continueToken allItems
      = some { result := .ok (allItems ++ items)
               pages := if 1 < n + 1 then
                   emitListPage ctx (2 * n + 1) items
                     (allItems ++ items).length remaining false
                 else []
               progress :=
                [reported (allItems ++ items).length remaining] } := by
  rw [loop, hctx]
  dsimp only
  rw [hcall]
  simp

theorem loop_more {n : Nat} (fuel : Nat) {continueToken more : String}
    (allItems : List T) {items : List T} {remaining : Option Int64}
    (hctx : ctx.err (2 * n) = none)
    (hcall : fetchPage n ⟨pageSize, continueToken⟩
      = .ok ⟨items, more, remaining⟩) (hmore : more ≠ "") :
    loop ctx fetchPage pageSize (fuel + 1) n continueToken allItems
      = (loop ctx fetchPage pageSize fuel (n + 1) more
          (allItems ++ items)).map fun rest =>
        { result := rest.result
          pages := emitListPage ctx (2 * n + 1) items
            (allItems ++ items).length remaining true ++ rest.pages
          progress := reported (allItems ++ items).length remaining
            :: rest.progress } := by
  rw [loop, hctx]
  dsimp only
  rw [hcall]
  dsimp only
  rw [if_pos hmore, if_pos (.inr hmore), decide_eq_true hmore]

/-- The loop, from a page on. -/
theorem loop_listsFrom (ctx : Ctx)
    (h : Serves fetchPage pageSize pages token) (fuel : Nat) :
    ∀ n : Nat, n < pages.length → n + fuel = pages.length →
      ∃ listed, loop ctx fetchPage pageSize fuel n (token n)
          (pages.take n).flatten = some listed
        ∧ ListsFrom ctx fetchPage pageSize pages token n listed := by
  induction fuel with
  | zero =>
    intro n hlt hn
    omega
  | succ fuel ih =>
    intro n hlt hn
    by_cases hctx : ctx.err (2 * n) = none
    · rcases h.answer n hlt with ⟨err, herr⟩ | ⟨remaining, hanswer⟩
      · refine ⟨_, ?_, .of_stops err hlt (.inr ⟨err, herr⟩)⟩
        rw [loop, hctx, herr]
      · have hstops : ¬ Stops ctx fetchPage pageSize token n := by
          intro hstop
          obtain ⟨err, herr⟩ := hstop.resolve_left (not_not_intro hctx)
          rw [hanswer] at herr
          cases herr
        by_cases hlast : n + 1 = pages.length
        · rw [hlast, h.last] at hanswer
          have hturn := loop_last fuel (pages.take n).flatten hctx hanswer
          have hall : (pages.take (n + 1)).flatten = pages.flatten := by
            rw [hlast, List.take_length]
          rw [flatten_take_succ hlt] at hturn
          refine ⟨_, hturn, ?_⟩
          rw [hall]
          exact .last_page hlast hstops (by rw [hall]) remaining _
        · have hturn := loop_more fuel (pages.take n).flatten hctx hanswer
            (h.more _ (by omega) (by omega))
          obtain ⟨rest, hrest, hlists⟩ :=
            ih (n + 1) (by omega) (by omega)
          rw [flatten_take_succ hlt, hrest] at hturn
          exact ⟨_, hturn, .more_pages (by omega) hstops rfl remaining _
            hlists⟩
    · obtain ⟨err, herr⟩ := Option.ne_none_iff_exists'.mp hctx
      refine ⟨_, ?_, .of_stops err hlt (.inl hctx)⟩
      rw [loop, herr]

-- ======== the result

/-- A listing with a progress callback returns what the one without does,
if the context has not ended before a page and no page fails, and else an
error. It emits a prefix of the pages, with the numbers of items up to their
ends: none of a single page, and all of several if it returns them and the
context has not ended behind the last. -/
theorem paginatedList_pages (ctx : Ctx)
    (fetchPage : Nat → ListOptions → Except String (Answer T))
    (pageSize : Int) (pages : List (List T)) (token : Nat → String)
    (hserves : Serves fetchPage pageSize pages token)
    (hplain : ∃ more remaining, fetchPage 0 {}
      = .ok ⟨pages.flatten, more, remaining⟩) :
    ∃ plain listed,
      paginatedList ctx fetchPage pageSize false 0 = some plain
        ∧ paginatedList ctx fetchPage pageSize true pages.length
          = some listed
        ∧ plain.result = .ok pages.flatten
        ∧ ((∀ n < pages.length, ¬ Stops ctx fetchPage pageSize token n) →
          listed.result = plain.result)
        ∧ ((∃ n < pages.length, Stops ctx fetchPage pageSize token n) →
          ∃ err, listed.result = .error err)
        ∧ listed.pages.map ListPage.delivery <+: deliveries pages
        ∧ (pages.length = 1 → listed.pages = [])
        ∧ (1 < pages.length → listed.result = plain.result →
          ctx.observed = true → ctx.err (2 * pages.length - 1) = none →
            listed.pages.map ListPage.delivery = deliveries pages) := by
  obtain ⟨more, remaining, hcall⟩ := hplain
  obtain ⟨listed, hlisted, hfrom⟩ := loop_listsFrom ctx hserves
    pages.length 0 hserves.nonempty (Nat.zero_add _)
  have hplain : paginatedList ctx fetchPage pageSize false 0
      = some { result := .ok pages.flatten } := by
    unfold paginatedList
    rw [if_neg (by simp), hcall]
    rfl
  rw [hserves.first] at hlisted
  refine ⟨_, listed, hplain, hlisted, rfl, fun hall => ?_, ?_, ?_,
    hfrom.single, ?_⟩
  · exact hfrom.ok fun n _ hn => hall n hn
  · rintro ⟨n, hn, hstops⟩
    exact hfrom.error n (Nat.zero_le n) hn hstops
  · exact hfrom.emitted
  · exact hfrom.whole

/-- The error of a context that ends at an instant, or never. -/
def errFrom (last : Option Nat) (now : Nat) : Option String :=
  match last with
  | some last => if now < last then none else some "context canceled"
  | none => none

theorem errFrom_stays (last : Option Nat) (i j : Nat) (hle : i ≤ j)
    (h : errFrom last i ≠ none) : errFrom last j ≠ none := by
  unfold errFrom at h ⊢
  cases last with
  | none => exact h
  | some last =>
    by_cases hj : j < last
    · have hi : i < last := Nat.lt_of_le_of_lt hle hj
      simp [hi] at h
    · simp [hj]

/-- A context with an observer that ends at an instant, or never. -/
def Ctx.until (last : Option Nat) : Ctx where
  err := errFrom last
  stays := errFrom_stays last
  observed := true

def threeNumbers (_ : Nat) (opts : ListOptions) :
    Except String (Answer Nat) :=
  if opts.limit = 0 then .ok ⟨[1, 2, 3], "", none⟩
  else if opts.continueToken = "" then .ok ⟨[1, 2], "next", some 1⟩
  else .ok ⟨[3], "", none⟩

def threeTokens (n : Nat) : String := if n = 1 then "next" else ""

theorem threeNumbers_serves :
    Serves threeNumbers 2 [[1, 2], [3]] threeTokens where
  nonempty := by decide
  first := rfl
  more n hpos hlt := by
    obtain rfl : n = 1 := by
      rw [show [[1, 2], [3]].length = 2 from rfl] at hlt
      omega
    decide
  last := rfl
  answer n h := by
    match n, h with
    | 0, _ => exact .inr ⟨some 1, rfl⟩
    | 1, _ => exact .inr ⟨none, rfl⟩

/-- The three numbers, listed in pages. -/
theorem paginatedList_pages_three :
    ∃ listed, paginatedList (.until none) threeNumbers 2 true 2
        = some listed
      ∧ listed.pages.map ListPage.delivery = [([1, 2], 2), ([3], 3)] := by
  obtain ⟨plain, listed, -, hlisted, -, hok, -, -, -, hwhole⟩ :=
    paginatedList_pages (.until none) threeNumbers 2 [[1, 2], [3]]
      threeTokens threeNumbers_serves ⟨"", none, rfl⟩
  refine ⟨listed, hlisted, hwhole (by decide) (hok fun n hn => ?_) rfl rfl⟩
  rintro (hended | ⟨err, herr⟩)
  · exact hended rfl
  · unfold threeNumbers at herr
    simp at herr
    split at herr <;> cases herr

/-- The context ends behind the call for the last page: all is returned,
and that page is not emitted. -/
theorem last_page_not_emitted :
    ∃ (ctx : Ctx) (fetchPage : Nat → ListOptions →
        Except String (Answer Nat)) (pages : List (List Nat))
      (token : Nat → String) (listed : Listed Nat),
      Serves fetchPage 2 pages token
        ∧ fetchPage 0 {} = .ok ⟨pages.flatten, "", none⟩
        ∧ ctx.observed = true
        ∧ ctx.err (2 * pages.length - 1) ≠ none
        ∧ paginatedList ctx fetchPage 2 true pages.length = some listed
        ∧ listed.result = .ok pages.flatten
        ∧ listed.pages.map ListPage.delivery ≠ deliveries pages := by
  refine ⟨.until (some 3), threeNumbers, [[1, 2], [3]], threeTokens, _,
    threeNumbers_serves, rfl, rfl, by decide, rfl, rfl, by decide⟩

end Listing
