/-
What a terminal session emits (`Session.readLoop` of
pkg/terminal/session_unix.go).

Each read of the PTY that goes through is an event of its own, with what was
read as a string. It is encoded as JSON on its way to the frontend, and a
string of JSON is made of runes; so a rune that two reads have parts of does
not arrive, and U+FFFD does for each of its bytes.
-/
import Kubikles.Lib.Json

namespace Terminal

/-- What `s.pty.Read` returns. -/
inductive Read where
  | data (bytes : Text)
  | error (err : String)
deriving DecidableEq

structure TerminalEvent where
  sessionID : String
  data : Text := []
  done : Bool := false
deriving DecidableEq

/-- `readLoop`: what it emits, of the reads as they come, each with whether
`s.done` is closed where it is looked at behind the read. With no further
read the loop waits for one. -/
def readLoop (id : String) : List (Read × Bool) → List TerminalEvent
  | [] => []
  | (.error _, closed) :: _ =>
    if closed then [] else [{ sessionID := id, done := true }]
  | (.data bytes, closed) :: rest =>
    if closed then []
    else { sessionID := id, data := bytes } :: readLoop id rest

/-- What was read before the loop has come to its end. -/
def delivered : List (Read × Bool) → List Text
  | (.data bytes, false) :: rest => bytes :: delivered rest
  | _ => []

def arrived (event : TerminalEvent) : Text := Json.marshaled event.data

/-- What is asked of the events: the data that arrives is what was read, and
nothing comes behind the event that says it is done. -/
structure Transparent (reads : List (Read × Bool))
    (events : List TerminalEvent) : Prop where
  data : (events.map arrived).flatten = (delivered reads).flatten
  done : ∀ pre event post, events = pre ++ event :: post →
    event.done = true → post = [] ∧ event.data = []
      ∧ ∀ e ∈ pre, e.done = false

theorem readLoop_eq (id : String) (reads : List (Read × Bool)) :
    ∃ ends : List TerminalEvent,
      readLoop id reads
        = (delivered reads).map (fun bytes => ⟨id, bytes, false⟩) ++ ends
      ∧ (ends = [] ∨ ends = [{ sessionID := id, done := true }]) := by
  induction reads with
  | nil => exact ⟨[], rfl, .inl rfl⟩
  | cons read reads ih =>
    obtain ⟨read, closed⟩ := read
    cases read with
    | error err =>
      cases closed with
      | true => exact ⟨[], rfl, .inl rfl⟩
      | false => exact ⟨_, rfl, .inr rfl⟩
    | data bytes =>
      cases closed with
      | true => exact ⟨[], rfl, .inl rfl⟩
      | false =>
        obtain ⟨ends, hreads, hends⟩ := ih
        refine ⟨ends, ?_, hends⟩
        show (⟨id, bytes, false⟩ : TerminalEvent) :: readLoop id reads
          = _
        rw [hreads]
        rfl

/-- What was read arrives exactly if each read is well formed by itself. -/
theorem readLoop_transparent_iff (id : String) (reads : List (Read × Bool)) :
    Transparent reads (readLoop id reads)
      ↔ ∀ bytes ∈ delivered reads, Json.utf8Valid bytes = true := by
  obtain ⟨ends, hreads, hends⟩ := readLoop_eq id reads
  have hdata : ((readLoop id reads).map arrived).flatten
      = ((delivered reads).map Json.marshaled).flatten := by
    rw [hreads, List.map_append, List.flatten_append, List.map_map]
    have hnil : (ends.map arrived).flatten = [] := by
      rcases hends with rfl | rfl <;> rfl
    rw [hnil, List.append_nil]
    rfl
  rw [← Json.flatten_marshaled_iff, ← hdata]
  refine ⟨Transparent.data, fun h => ⟨h, fun pre event post hsplit hdone =>
    ?_⟩⟩
  rw [hreads] at hsplit
  have hopen : ∀ e ∈ (delivered reads).map
      (fun bytes => (⟨id, bytes, false⟩ : TerminalEvent)),
        e.done = false := by
    intro e he
    obtain ⟨bytes, -, rfl⟩ := List.mem_map.mp he
    rfl
  rcases List.append_eq_append_iff.mp hsplit with
    ⟨mid, hpre, hends'⟩ | ⟨mid, hchunks, hmid⟩
  · rcases hends with rfl | rfl
    · simp at hends'
    · cases mid with
      | nil =>
        obtain ⟨rfl, rfl⟩ := List.cons.inj hends'
        rw [hpre, List.append_nil]
        exact ⟨rfl, rfl, hopen⟩
      | cons e mid =>
        have := (List.cons.inj hends').2
        simp at this
  · cases mid with
    | nil =>
      rcases hends with rfl | rfl
      · simp at hmid
      · obtain ⟨rfl, rfl⟩ := List.cons.inj hmid
        rw [List.append_nil] at hchunks
        exact ⟨rfl, rfl, hchunks ▸ hopen⟩
    | cons e mid =>
      obtain ⟨rfl, -⟩ := List.cons.inj hmid
      have := hopen event (by rw [hchunks]; simp)
      rw [this] at hdone
      cases hdone

/-- The two bytes of an é that come in two reads. -/
theorem cut_rune_replaced :
    Json.utf8Valid [0xC3, 0xA9] = true
      ∧ ¬Transparent [(.data [0xC3], false), (.data [0xA9], false)]
        (readLoop "s" [(.data [0xC3], false), (.data [0xA9], false)]) := by
  refine ⟨by decide, fun h => ?_⟩
  have hdata : ([0xEF, 0xBF, 0xBD, 0xEF, 0xBF, 0xBD] : Text)
      = [0xC3, 0xA9] :=
    h.data
  cases hdata

end Terminal
