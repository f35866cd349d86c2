/-
Lines of a stream that breaks and is opened again.

# The argument

The tokens of a broken stream are lines of what was asked for and, at the
end, what had arrived of one more (`Tokens`). The next stream is asked
for from the second of the nanosecond behind the last token on, so where
the last token is a whole line and that nanosecond begins a second, it
goes on with the line behind it (`Resumes`, kept by every turn that is
`Safe`). Where it does not, some line is sent again that was handed on
already (`replays`), whatever comes later. Two lines are told apart by
their timestamps, so a part of a line is not another line.
-/
import Kubikles.PodLog.LineStream
import Kubikles.PodLog.Proofs.After

namespace StreamPodLogs

open PodLog
open Machine
open Rfc3339 (secondOf)
open Scanner (dropCR dropCR_isBeginning scanPieces_eq)
open Text (newline space unlines split)

variable {log lines : List LogLine} {body : Body} {tokens : List Text}
variable {timestamps : Bool} {containerName : Text} {tailLines : Int}
variable {s s' : Loop} {out out' : List Call}

-- ======== the lines

def token (l : LogLine) : Text := dropCR l.text

def EndsSecond (l : LogLine) : Prop :=
  secondOf l.instant < secondOf (l.instant + 1)

theorem token_length (l : LogLine) : 31 ≤ (token l).length := by
  have hthirty := l.thirty
  unfold token dropCR LogLine.text
  cases hcontent : l.content with
  | nil =>
    rw [if_neg]
    · rw [List.length_append, hthirty]
      rfl
    · rw [List.getLast?_concat]
      decide
  | cons b rest =>
    split
    · rw [List.length_dropLast, List.length_append, List.length_cons,
        List.length_cons]
      omega
    · rw [List.length_append, List.length_cons]
      omega

theorem timestamp_of_beginning {piece : Text} {l : LogLine}
    (h : piece <+: l.text) (hlong : 30 ≤ piece.length) :
    piece.take 30 = l.timestamp := by
  obtain ⟨rest, hrest⟩ := h
  have htake : l.text.take 30 = piece.take 30 := by
    rw [← hrest, List.take_append_of_le_length hlong]
  rw [← htake]
  unfold LogLine.text
  rw [← l.thirty, List.take_left]

theorem token_timestamp (l : LogLine) : (token l).take 30 = l.timestamp :=
  timestamp_of_beginning (dropCR_isBeginning _)
    ((Nat.le_succ 30).trans (token_length l))

theorem eq_of_timestamp
    (hordered : log.Pairwise fun l l' => l.instant < l'.instant)
    {l l' : LogLine} (hl : l ∈ log) (hl' : l' ∈ log)
    (h : l.timestamp = l'.timestamp) : l = l' := by
  have htime : l.time = l'.time := by
    have hread := l.cursor.reads
    rw [h, l'.cursor.reads] at hread
    exact (Option.some.inj hread).symm
  have hinstant : l.instant = l'.instant := by
    unfold LogLine.instant
    rw [htime]
  obtain ⟨i, hi, rfl⟩ := List.getElem_of_mem hl
  obtain ⟨j, hj, rfl⟩ := List.getElem_of_mem hl'
  rcases Nat.lt_trichotomy i j with hij | rfl | hij
  · have := List.pairwise_iff_getElem.mp hordered i j hi hj hij
    omega
  · rfl
  · have := List.pairwise_iff_getElem.mp hordered j i hj hi hij
    omega

theorem eq_of_piece
    (hordered : log.Pairwise fun l l' => l.instant < l'.instant)
    {l l' : LogLine} (hl : l ∈ log) (hl' : l' ∈ log) {piece : Text}
    (hpiece : piece <+: l.text) (h : dropCR piece = token l') :
    l = l' := by
  refine eq_of_timestamp hordered hl hl' ?_
  have hlong := token_length l'
  rw [← h] at hlong
  rw [← token_timestamp l', ← h]
  exact (timestamp_of_beginning ((dropCR_isBeginning _).trans hpiece)
    (by omega)).symm

-- ======== the tokens

def Tokens (lines : List LogLine) (tokens : List Text) : Prop :=
  ∃ k, tokens = (lines.take k).map token
    ∨ ∃ l piece, lines[k]? = some l ∧ piece <+: l.text
      ∧ tokens = (lines.take k).map token ++ [dropCR piece]

/-- The tokens of what a server sends. -/
theorem tokens_of_sends {options : PodLogOptions}
    (h : Sends log options body) :
    ∃ written ≤ log.length, Tokens (served log written options) (scan body).1
      ∧ ((scan body).2 = none →
        (scan body).1 = (served log written options).map token) := by
  obtain ⟨written, hwritten, hbody⟩ := h
  refine ⟨written, hwritten, ?_⟩
  generalize served log written options = lines at hbody
  have hline : ∀ l ∈ lines.map LogLine.text, newline ∉ l := by
    intro l hl
    obtain ⟨l, -, rfl⟩ := List.mem_map.mp hl
    exact newline_notMem_text l
  -- both ways the pieces are lines and what has arrived of one more
  have hpieces : ∃ k piece, split body.bytes
        = (lines.take k).map LogLine.text ++ [piece]
      ∧ (piece ≠ [] → ∃ l, lines[k]? = some l ∧ piece <+: l.text)
      ∧ (body.err = none → lines.length ≤ k ∧ piece = []) := by
    rcases hbody with rfl | ⟨n, err, rfl⟩
    · refine ⟨lines.length, [], ?_, absurd rfl, fun _ => ⟨le_rfl, rfl⟩⟩
      rw [List.take_length]
      exact Text.split_unlines hline
    · obtain ⟨k, piece, hsplit, hpiece⟩ := Text.split_take_unlines hline n
      refine ⟨k, piece, ?_, fun hne => ?_, fun h => nomatch h⟩
      · rw [List.map_take]
        exact hsplit
      · obtain ⟨l, hl, hbegins⟩ := hpiece hne
        rw [List.getElem?_map, Option.map_eq_some_iff] at hl
        obtain ⟨l, hl, rfl⟩ := hl
        exact ⟨l, hl, hbegins⟩
  obtain ⟨k, piece, hsplit, hpiece, hwhole⟩ := hpieces
  obtain ⟨j, htokens, hall⟩ :=
    scanPieces_eq maxTokenSize ((lines.take k).map LogLine.text) piece
  have hlength : ((lines.take k).map LogLine.text).length
      = min k lines.length := by
    rw [List.length_map, List.length_take]
  have hmap : ∀ m : List LogLine,
      (m.map LogLine.text).map dropCR = m.map token := fun m => by
    rw [List.map_map]
    rfl
  rw [hlength] at hall
  unfold scan
  simp only [hsplit, htokens]
  refine ⟨?_, fun herr => ?_⟩
  · rcases Nat.lt_or_ge ((lines.take k).map LogLine.text).length j
      with hlong | hshort
    · by_cases hnil : piece = []
      · refine ⟨k, Or.inl ?_⟩
        subst hnil
        rw [List.take_of_length_le]
        · rw [List.map_append, hmap]
          exact List.append_nil _
        · rw [List.length_append]
          exact hlong.le
      · have hkeep : [piece].filter (· ≠ []) = [piece] := by
          refine List.filter_eq_self.mpr fun p hp => ?_
          rw [List.mem_singleton.mp hp]
          exact decide_eq_true hnil
        obtain ⟨l, hl, hbegins⟩ := hpiece hnil
        refine ⟨k, Or.inr ⟨l, piece, hl, hbegins, ?_⟩⟩
        rw [hkeep, List.take_of_length_le, List.map_append, hmap]
        · rfl
        · rw [List.length_append]
          exact hlong
    · refine ⟨min j k, Or.inl ?_⟩
      rw [List.take_append_of_le_length hshort, ← List.map_take, hmap,
        List.take_take]
  · split at herr
    · cases herr
    · next hshort =>
        obtain ⟨hk, rfl⟩ := hwhole herr
        have hj := hall (by simpa using hshort)
        rw [List.take_of_length_le, List.map_append, hmap,
          List.take_of_length_le hk]
        · exact List.append_nil _
        · rw [List.length_append, hlength]
          exact hj.le

theorem Tokens.last
    (hordered : log.Pairwise fun l l' => l.instant < l'.instant)
    (hlines : ∀ l ∈ lines, l ∈ log) (h : Tokens lines tokens)
    {l : LogLine} (hl : l ∈ log) (hlast : tokens.getLast? = some (token l)) :
    ∃ k, lines[k]? = some l ∧ tokens = (lines.take (k + 1)).map token := by
  obtain ⟨k, rfl | ⟨m, piece, hm, hpiece, rfl⟩⟩ := h
  · rw [List.getLast?_map, Option.map_eq_some_iff] at hlast
    obtain ⟨m, hm, htoken⟩ := hlast
    have hmem : m ∈ lines := List.mem_of_mem_take (List.mem_of_getLast? hm)
    have heq : m = l := by
      refine eq_of_timestamp hordered (hlines m hmem) hl ?_
      rw [← token_timestamp m, htoken, token_timestamp]
    subst heq
    rw [List.getLast?_eq_getElem?, List.getElem?_take] at hm
    split at hm
    · next hlt =>
        rw [List.length_take] at hm hlt
        have hpos : 0 < min k lines.length := by
          have := (List.getElem?_eq_some_iff.mp hm).1
          omega
        refine ⟨_, hm, ?_⟩
        rw [Nat.sub_add_cancel hpos]
        congr 1
        rcases Nat.le_total k lines.length with hle | hle
        · rw [Nat.min_eq_left hle]
        · rw [Nat.min_eq_right hle, List.take_length,
            List.take_of_length_le hle]
    · cases hm
  · rw [List.getLast?_concat, Option.some.injEq] at hlast
    have heq := eq_of_piece hordered (hlines m (List.mem_of_getElem? hm)) hl
      hpiece hlast
    subst heq
    refine ⟨k, hm, ?_⟩
    rw [List.take_add_one, hm, hlast, List.map_append]
    rfl

-- ======== the turns

/-- A stream that breaks does so before anything is handed on of it, or
right behind a line with the last nanosecond of a second. -/
def Turn.Safe (log : List LogLine) : Turn → Prop
  | .stream body _ => (scan body).2 = none ∨ (scan body).1 = []
      ∨ ∃ l ∈ log, (scan body).1.getLast? = some (token l) ∧ EndsSecond l
  | _ => True

def calls (timestamps : Bool) (lines : List LogLine) : List Call :=
  lines.map fun l => call timestamps (token l)

/-- Behind the last token: an error is returned, or nil where there was
none, or the loop goes around. -/
theorem scanned_cases (s : Loop) (linesReceived : Nat)
    (scanErr : Option LogError) (done : Option Nat) :
    let s' := s.scanned linesReceived scanErr done
    (∃ err, s'.returned = some (some err))
      ∨ (s'.firstConnect = s.firstConnect
        ∧ s'.lastTimestamp = s.lastTimestamp
        ∧ (s'.returned = s.returned ∧ scanErr ≠ none
          ∨ s'.returned = some none ∧ scanErr = none)) := by
  unfold Loop.scanned
  cases scanErr with
  | none => exact Or.inr ⟨rfl, rfl, Or.inr ⟨rfl, rfl⟩⟩
  | some err =>
    simp only
    generalize (if 0 < linesReceived then 0
      else s.consecutiveFailures + 1) = failures
    split
    · exact Or.inl ⟨_, rfl⟩
    · split
      · exact Or.inl ⟨_, rfl⟩
      · split
        · exact Or.inl ⟨_, rfl⟩
        · exact Or.inr ⟨rfl, rfl, Or.inl ⟨rfl, fun h => nomatch h⟩⟩

/-- What a stream comes to: an error is returned, or all its tokens are
handed on and the loop goes around or returns nil. -/
theorem stream_cases {done : Option Nat} {o : List Call}
    (h : streamPodLogs timestamps (.stream body done) s = some (s', o)) :
    s.returned = none ∧ ((∃ err, s'.returned = some (some err))
      ∨ (o = (scan body).1.map (call timestamps)
        ∧ s'.firstConnect = false
        ∧ s'.lastTimestamp = afterTokens s.lastTimestamp (scan body).1
        ∧ (s'.returned = none ∧ (scan body).2 ≠ none
          ∨ s'.returned = some none ∧ (scan body).2 = none))) := by
  unfold streamPodLogs at h
  split at h
  · cases h
  next hnone =>
    have hreturned : s.returned = none := by
      cases hs : s.returned with
      | none => rfl
      | some r =>
        rw [hs] at hnone
        exact absurd rfl hnone
    refine ⟨hreturned, ?_⟩
    rw [Option.some.injEq] at h
    unfold Loop.turn at h
    rcases hscan : scan body with ⟨tokens, scanErr⟩
    simp only [hscan, Prod.mk.injEq] at h ⊢
    obtain ⟨rfl, rfl⟩ := h
    split
    · exact Or.inl ⟨_, rfl⟩
    next hall =>
      have htake : tokens.take (done.getD tokens.length) = tokens := by
        refine List.take_of_length_le ?_
        rw [List.length_take] at hall
        omega
      rw [htake]
      rcases scanned_cases { s with
          firstConnect := false
          lastTimestamp := afterTokens s.lastTimestamp tokens }
        tokens.length scanErr done with herr | ⟨hfirst, hlast, hend⟩
      · exact Or.inl herr
      · refine Or.inr ⟨rfl, hfirst, hlast, hend.imp ?_ id⟩
        exact fun ⟨hagain, herr⟩ => ⟨hagain.trans hreturned, herr⟩

theorem afterTokens_last {last : Text} {l : LogLine}
    (h : tokens.getLast? = some (token l)) :
    afterTokens last tokens = l.timestamp := by
  obtain ⟨before, rfl⟩ := List.getLast?_eq_some_iff.mp h
  have hlong := token_length l
  unfold afterTokens
  rw [List.foldl_append, List.foldl_cons, List.foldl_nil,
    if_pos (by omega), token_timestamp]

/-- Where there is no timestamp to go on from, the lines are asked for
from some line on. -/
theorem served_fresh (written : Nat) (h : s.lastTimestamp = []) :
    ∃ first, served log written (s.options containerName tailLines)
      = log.drop first := by
  have hsince : (s.options containerName tailLines).sinceTime = none :=
    if_neg fun hne => hne.2 h
  unfold served
  rw [hsince]
  cases (s.options containerName tailLines).tailLines with
  | none => exact ⟨0, rfl⟩
  | some n => exact ⟨_, rfl⟩

/-- Where there is one, they are asked for from the second of the next
nanosecond on. -/
theorem served_resumed (written : Nat) {l : LogLine}
    (hfirst : s.firstConnect = false) (h : s.lastTimestamp = l.timestamp) :
    served log written (s.options containerName tailLines)
      = since log (l.instant + 1) := by
  have hne : l.timestamp ≠ [] := by
    intro hnil
    have hthirty := l.thirty
    rw [hnil] at hthirty
    exact absurd hthirty (by decide)
  have hsince : (s.options containerName tailLines).sinceTime
      = some l.time.next := by
    unfold Loop.options
    simp only [hfirst, h]
    rw [if_pos ⟨by decide, hne⟩, l.cursor.reads]
    rfl
  unfold served
  rw [hsince]
  show since log l.time.next.instant = _
  rw [Rfc3339.Time.instant_next]
  rfl

theorem since_of_endsSecond
    (hordered : log.Pairwise fun l l' => l.instant < l'.instant)
    {l : LogLine} (h : EndsSecond l) {k : Nat} (hk : log[k]? = some l) :
    since log (l.instant + 1) = log.drop (k + 1) := by
  have hinOrder : InOrder log := hordered.imp Int.le_of_lt
  have hnone : repeated log l.instant = [] := by
    refine List.filter_eq_nil_iff.mpr fun l' hl' hle => ?_
    have hsecond := (List.mem_filter.mp hl').2
    rw [decide_eq_true_eq] at hsecond hle
    have hback : secondOf l'.instant ≤ secondOf l.instant :=
      Int.ediv_le_ediv (by decide) hle
    unfold EndsSecond at h
    omega
  rw [hinOrder.since_eq, hnone, List.nil_append, after_eq_drop hordered hk]

-- ======== where it is safe

def Delivers (log : List LogLine) (timestamps : Bool) (out : List Call) :
    Prop :=
  ∃ first, out = calls timestamps (log.drop first)

/-- The calls so far are lines of the log, and the next stream is asked
for the lines behind them. -/
def Resumes (log : List LogLine) (timestamps : Bool) (s : Loop)
    (out : List Call) : Prop :=
  (out = [] ∧ s.lastTimestamp = [])
    ∨ ∃ first n, ∃ l : LogLine,
      s.firstConnect = false ∧ s.lastTimestamp = l.timestamp
      ∧ since log (l.instant + 1) = log.drop (first + n)
      ∧ out = calls timestamps ((log.drop first).take n)

/-- What holds of the loop and of the calls so far. -/
def Inv (log : List LogLine) (timestamps : Bool) (s : Loop)
    (out : List Call) : Prop :=
  match s.returned with
  | none => Resumes log timestamps s out
  | some none => Delivers log timestamps out
  | some (some _) => True

theorem Resumes.served (h : Resumes log timestamps s out) (written : Nat) :
    ∃ first n,
      StreamPodLogs.served log written
            (s.options containerName tailLines) = log.drop (first + n)
        ∧ out = calls timestamps ((log.drop first).take n) := by
  rcases h with ⟨rfl, hlast⟩ | ⟨first, n, l, hfirst, hlast, hsince, hout⟩
  · obtain ⟨first, hserved⟩ : ∃ first, StreamPodLogs.served log written
        (s.options containerName tailLines) = log.drop first :=
      served_fresh written hlast
    exact ⟨first, 0, hserved, by rw [List.take_zero]; rfl⟩
  · exact ⟨first, n, (served_resumed written hfirst hlast).trans hsince,
      hout⟩

theorem calls_append (first n m : Nat) :
    calls timestamps ((log.drop first).take n)
        ++ calls timestamps ((log.drop (first + n)).take m)
      = calls timestamps ((log.drop first).take (n + m)) := by
  unfold calls
  rw [← List.map_append, List.take_add, List.drop_drop]

theorem map_call (lines : List LogLine) :
    (lines.map token).map (call timestamps) = calls timestamps lines := by
  rw [List.map_map]
  rfl

/-- A safe turn goes on behind what was handed on. -/
theorem step_inv
    (hordered : log.Pairwise fun l l' => l.instant < l'.instant)
    {turn : Turn} {o : List Call} (hi : Inv log timestamps s out)
    (hok : turn.From log containerName tailLines s ∧ turn.Safe log)
    (h : streamPodLogs timestamps turn s = some (s', o)) :
    Inv log timestamps s' (out ++ o) := by
  cases turn with
  | done =>
    unfold streamPodLogs at h
    split at h
    · cases h
    · cases h
      trivial
  | openError err done =>
    unfold streamPodLogs at h
    split at h
    · cases h
    · cases h
      trivial
  | stream body done =>
    obtain ⟨hfrom, hsafe⟩ := hok
    obtain ⟨hreturned, ⟨err, herr⟩ | ⟨rfl, hfirst, hlast, hend⟩⟩ :=
      stream_cases h
    · unfold Inv
      rw [herr]
      trivial
    unfold Inv at hi
    rw [hreturned] at hi
    obtain ⟨written, -, htokens, hwhole⟩ := tokens_of_sends hfrom
    obtain ⟨first, n, hserved, hout⟩ := Resumes.served hi written
    rw [hserved] at htokens hwhole
    unfold Inv
    rcases hend with ⟨hagain, herr⟩ | ⟨hdone, herr⟩
    · rw [hagain]
      rcases hsafe with hnone | hnil | ⟨l, hl, hlastToken, hends⟩
      · exact absurd hnone herr
      · -- nothing was handed on, so nothing has changed
        rw [hnil] at hlast ⊢
        rw [List.map_nil, List.append_nil]
        rcases hi with ⟨hnil, hnever⟩ | ⟨first, n, l, -, hold, hrest⟩
        · exact Or.inl ⟨hnil, hlast.trans hnever⟩
        · exact Or.inr ⟨first, n, l, hfirst, hlast.trans hold, hrest⟩
      · -- up to a line that ends a second
        have hsub : ∀ l ∈ log.drop (first + n), l ∈ log :=
          fun l hl => List.mem_of_mem_drop hl
        obtain ⟨k, hk, htoken⟩ := htokens.last hordered hsub hl hlastToken
        rw [afterTokens_last hlastToken] at hlast
        rw [List.getElem?_drop] at hk
        refine Or.inr ⟨first, n + (k + 1), l, hfirst, hlast, ?_, ?_⟩
        · rw [since_of_endsSecond hordered hends hk]
          congr 1
          omega
        · rw [htoken, hout, map_call, calls_append]
    · -- to the end
      rw [hdone]
      refine ⟨first, ?_⟩
      rw [hout, hwhole herr, map_call, calls, calls, ← List.map_append,
        ← List.drop_drop, List.take_append_drop]
      rfl

-- ======== where it is not safe

/-- The calls are lines of the log, each later than those before it. -/
def Increasing (log : List LogLine) (timestamps : Bool) (out : List Call) :
    Prop :=
  ∃ lines, (∀ l ∈ lines, l ∈ log)
    ∧ (lines.Pairwise fun l l' => l.instant < l'.instant)
    ∧ out = calls timestamps lines

theorem Delivers.increasing
    (hordered : log.Pairwise fun l l' => l.instant < l'.instant)
    (h : Delivers log timestamps out) : Increasing log timestamps out := by
  obtain ⟨first, rfl⟩ := h
  exact ⟨log.drop first, fun l hl => List.mem_of_mem_drop hl,
    List.Pairwise.sublist (List.drop_sublist ..) hordered, rfl⟩

theorem Increasing.of_append (h : Increasing log timestamps (out ++ out')) :
    Increasing log timestamps out' := by
  obtain ⟨lines, hmem, hpairwise, heq⟩ := h
  obtain ⟨before, behind, rfl, -, rfl⟩ := List.append_eq_map_iff.mp heq
  exact ⟨behind, fun l hl => hmem l (List.mem_append_right _ hl),
    (List.pairwise_append.mp hpairwise).2.1, rfl⟩

/-- The last token of a stream is a line, and what is handed on next is a
later one. -/
theorem Increasing.of_concat {before : List Text} {x : Text}
    (h : Increasing log timestamps
      ((before ++ [x]).map (call timestamps) ++ out)) :
    ∃ l ∈ log, x = token l ∧ ∀ c rest, out = c :: rest →
      ∃ l' ∈ log, c.token = token l' ∧ l.instant < l'.instant := by
  obtain ⟨lines, hmem, hpairwise, heq⟩ := h
  rw [List.map_append, List.append_assoc] at heq
  obtain ⟨first, behind, rfl, -, heq⟩ := List.append_eq_map_iff.mp heq
  obtain ⟨l, behind, rfl, hx, rfl⟩ := List.map_eq_cons_iff.mp heq
  have hbehind := (List.pairwise_append.mp hpairwise).2.1
  refine ⟨l, hmem l (by simp), ?_, fun c rest hout => ?_⟩
  · exact (congrArg Call.token hx).symm
  · obtain ⟨l', behind, rfl, rfl, -⟩ := List.map_eq_cons_iff.mp hout
    exact ⟨l', hmem l' (by simp), rfl,
      (List.pairwise_cons.mp hbehind).1 l' (List.mem_cons_self ..)⟩

theorem Tokens.head {m : LogLine} {x : Text} {rest : List Text}
    (h : Tokens (m :: lines) (x :: rest)) :
    ∃ piece, piece <+: m.text ∧ x = dropCR piece := by
  obtain ⟨k, htokens | ⟨l, piece, hl, hpiece, htokens⟩⟩ := h
  · cases k with
    | zero => cases htokens
    | succ k => exact ⟨m.text, List.prefix_rfl, (List.cons.inj htokens).1⟩
  · cases k with
    | zero =>
      cases hl
      exact ⟨piece, hpiece, (List.cons.inj htokens).1⟩
    | succ k => exact ⟨m.text, List.prefix_rfl, (List.cons.inj htokens).1⟩

theorem run_returned {turns : List Turn} {r : Option StreamError}
    (h : s.returned = some r)
    (hrun : run (streamPodLogs timestamps) s turns = some (s', out)) :
    s'.returned = some r := by
  cases turns with
  | nil =>
    cases hrun
    exact h
  | cons turn rest =>
    obtain ⟨s₁, o₁, o₂, hstep, -, -⟩ := run_cons_iff.mp hrun
    unfold streamPodLogs at hstep
    rw [h] at hstep
    cases hstep

theorem turn_cases {turn : Turn} {o o' : List Call} {rest : List Turn}
    (h : streamPodLogs timestamps turn s = some (s', o))
    {s'' : Loop} (hrest : run (streamPodLogs timestamps) s' rest
      = some (s'', o')) (hnil : s''.returned = some none) :
    ∃ body done, turn = .stream body done
      ∧ o = (scan body).1.map (call timestamps)
      ∧ s'.firstConnect = false
      ∧ s'.lastTimestamp = afterTokens s.lastTimestamp (scan body).1
      ∧ (s'.returned = none ∧ (scan body).2 ≠ none
        ∨ s'.returned = some none ∧ (scan body).2 = none) := by
  have herror : ∀ err, s'.returned ≠ some (some err) := by
    intro err herr
    have hend := run_returned herr hrest
    rw [hnil] at hend
    cases hend
  cases turn with
  | done =>
    unfold streamPodLogs at h
    split at h
    · cases h
    · cases h
      exact absurd rfl (herror _)
  | openError err done =>
    unfold streamPodLogs at h
    split at h
    · cases h
    · cases h
      exact absurd rfl (herror _)
  | stream body done =>
    obtain ⟨-, ⟨err, herr⟩ | hcases⟩ := stream_cases h
    · exact absurd herr (herror err)
    · exact ⟨body, done, rfl, hcases⟩

/-- Behind a line that does not end its second the next line that is
handed on, and there is one, is no later than it. -/
theorem replays
    (hordered : log.Pairwise fun l l' => l.instant < l'.instant)
    {turns : List Turn} {l : LogLine} (hl : l ∈ log)
    (hends : ¬ EndsSecond l) (hreturned : s.returned = none)
    (hfirst : s.firstConnect = false) (hlast : s.lastTimestamp = l.timestamp)
    (hrun : run (streamPodLogs timestamps) s turns = some (s', out))
    (hnil : s'.returned = some none)
    (hfrom : Along (streamPodLogs timestamps)
      (fun s turn => turn.From log containerName tailLines s) s turns) :
    ∃ c rest, out = c :: rest
      ∧ ∀ l' ∈ log, c.token = token l' → l'.instant ≤ l.instant := by
  induction turns generalizing s out with
  | nil =>
    cases hrun
    rw [hreturned] at hnil
    cases hnil
  | cons turn turns ih =>
    obtain ⟨s₁, o₁, o₂, hstep, hrest, rfl⟩ := run_cons_iff.mp hrun
    obtain ⟨hsends, hfrom'⟩ := hfrom _ _ hstep
    obtain ⟨body, done, rfl, rfl, hfirst₁, hlast₁, hend⟩ :=
      turn_cases hstep hrest hnil
    obtain ⟨written, -, htokens, hwhole⟩ := tokens_of_sends hsends
    rw [served_resumed written hfirst hlast] at htokens hwhole
    -- the line is sent again, behind no later one
    have hagain : l ∈ since log (l.instant + 1) := by
      refine List.mem_filter.mpr ⟨hl, decide_eq_true ?_⟩
      unfold EndsSecond at hends
      omega
    obtain ⟨m, lines, hlines⟩ :=
      List.exists_cons_of_ne_nil (List.ne_nil_of_mem hagain)
    have hm : m ∈ log ∧ m.instant ≤ l.instant := by
      have hpairwise : (since log (l.instant + 1)).Pairwise
          fun l l' => l.instant < l'.instant := List.Pairwise.filter _ hordered
      have hmem : m ∈ since log (l.instant + 1) :=
        hlines ▸ List.mem_cons_self ..
      refine ⟨(List.mem_filter.mp hmem).1, ?_⟩
      rw [hlines] at hpairwise hagain
      rcases List.mem_cons.mp hagain with rfl | hbehind
      · exact le_rfl
      · exact ((List.pairwise_cons.mp hpairwise).1 l hbehind).le
    rw [hlines] at htokens hwhole
    cases hscan : (scan body).1 with
    | nil =>
      rw [hscan] at hlast₁ hwhole
      rcases hend with ⟨hreturned₁, -⟩ | ⟨-, herr⟩
      · exact ih hreturned₁ hfirst₁ (hlast₁.trans hlast) hrest hfrom'
      · cases hwhole herr
    | cons x rest =>
      rw [hscan] at htokens
      obtain ⟨piece, hpiece, rfl⟩ := htokens.head
      refine ⟨_, _, rfl, fun l' hl' htoken => ?_⟩
      rw [← eq_of_piece hordered hm.1 hl' hpiece htoken]
      exact hm.2

/-- If each line comes later than those before it, no turn was unsafe. -/
theorem safe_of_increasing
    (hordered : log.Pairwise fun l l' => l.instant < l'.instant)
    {turns : List Turn}
    (hrun : run (streamPodLogs timestamps) s turns = some (s', out))
    (hnil : s'.returned = some none)
    (hfrom : Along (streamPodLogs timestamps)
      (fun s turn => turn.From log containerName tailLines s) s turns)
    (h : Increasing log timestamps out) :
    ∀ turn ∈ turns, turn.Safe log := by
  induction turns generalizing s out with
  | nil => exact fun _ h => nomatch h
  | cons turn turns ih =>
    obtain ⟨s₁, o₁, o₂, hstep, hrest, rfl⟩ := run_cons_iff.mp hrun
    obtain ⟨-, hfrom'⟩ := hfrom _ _ hstep
    intro turn' hturn'
    rcases List.mem_cons.mp hturn' with rfl | hturn'
    · obtain ⟨body, done, rfl, rfl, hfirst₁, hlast₁, hend⟩ :=
        turn_cases hstep hrest hnil
      rcases hend with ⟨hreturned₁, -⟩ | ⟨-, herr⟩
      · rcases List.eq_nil_or_concat' (scan body).1 with
          hempty | ⟨before, x, hconcat⟩
        · exact Or.inr (Or.inl hempty)
        · -- the last token is a line, and behind it comes a later one
          rw [hconcat] at h
          obtain ⟨l, hl, rfl, hlater⟩ := h.of_concat
          have hlastToken : (scan body).1.getLast? = some (token l) := by
            rw [hconcat, List.getLast?_concat]
          rw [afterTokens_last hlastToken] at hlast₁
          refine Or.inr (Or.inr ⟨l, hl, hlastToken, ?_⟩)
          by_contra hends
          obtain ⟨c, rest, rfl, hearlier⟩ := replays hordered hl hends
            hreturned₁ hfirst₁ hlast₁ hrest hnil hfrom'
          obtain ⟨l', hl', htoken, hlt⟩ := hlater c rest rfl
          have := hearlier l' hl' htoken
          omega
      · exact Or.inl herr
    · exact ih hrest hfrom' h.of_append turn' hturn'

-- ======== the results

/-- Where nil is returned, the lines that were handed on are the log from
the first of them on if and only if no stream broke but before anything
was handed on of it, or right behind a line with the last nanosecond of a
second. -/
theorem delivers_iff (log : List LogLine)
    (hordered : log.Pairwise fun l l' => l.instant < l'.instant)
    (timestamps : Bool) (containerName : Text) (tailLines : Int)
    (turns : List Turn) (s : Loop) (out : List Call)
    (hrun : run (streamPodLogs timestamps) {} turns = some (s, out))
    (hnil : s.returned = some none)
    (hfrom : Along (streamPodLogs timestamps)
      (fun s turn => turn.From log containerName tailLines s) {} turns) :
    Delivers log timestamps out ↔ ∀ turn ∈ turns, turn.Safe log := by
  constructor
  · intro h
    exact safe_of_increasing hordered hrun hnil hfrom (h.increasing hordered)
  · intro hsafe
    have hinv := run_history (step_inv hordered)
      (show Inv log timestamps {} [] from Or.inl ⟨rfl, rfl⟩)
      (hfrom.and (along_of_forall hsafe)) hrun
    unfold Inv at hinv
    rw [hnil] at hinv
    exact hinv

/-- The first stream of the log of three lines breaks within the second
line, and the next does not break. -/
def brokenOnce : List Turn :=
  [.stream ⟨(unlines (crowded.map LogLine.text)).take 40,
      some (.other (Text.ofString "unexpected EOF"))⟩ none,
    .stream ⟨unlines (crowded.map LogLine.text), none⟩ none]

/-- What is handed on: the first line, a part of the second, and all
lines from the first on. -/
def brokenOnceCalls : List Call :=
  call true (token crowded[0])
    :: call true (crowded[1].text.take 7) :: calls true crowded

def brokenOnceEnd : Loop where
  lastTimestamp := crowded[2].timestamp
  firstConnect := false
  returned := some none

theorem brokenOnce_from :
    Along (streamPodLogs true)
      (fun s turn => turn.From crowded [] 0 s) {} brokenOnce := by
  intro s₁ o₁ h₁
  refine ⟨⟨0, Nat.zero_le _, Or.inr ⟨40, _, rfl⟩⟩, ?_⟩
  intro s₂ o₂ h₂
  refine ⟨⟨0, Nat.zero_le _, Or.inl ?_⟩, trivial⟩
  cases h₁
  rfl

set_option maxRecDepth 4096 in
/-- The first of them was not safe. -/
theorem delivers_iff_brokenOnce :
    Delivers crowded true brokenOnceCalls
      ↔ ∀ turn ∈ brokenOnce, turn.Safe crowded :=
  delivers_iff crowded (by decide) true [] 0 brokenOnce brokenOnceEnd
    brokenOnceCalls (by rfl) rfl brokenOnce_from

set_option maxRecDepth 4096 in
/-- So nil is returned, and the lines that were handed on are not the
log. -/
theorem brokenOnce_repeats :
    ∃ s out, run (streamPodLogs true) {} brokenOnce = some (s, out)
      ∧ s.returned = some none
      ∧ Along (streamPodLogs true)
        (fun s turn => turn.From crowded [] 0 s) {} brokenOnce
      ∧ ¬ Delivers crowded true out := by
  refine ⟨brokenOnceEnd, brokenOnceCalls, by rfl, rfl, brokenOnce_from, ?_⟩
  rintro ⟨first, h⟩
  have hlength := congrArg List.length h
  rw [calls, List.length_map, List.length_drop] at hlength
  have hfive : brokenOnceCalls.length = 5 := rfl
  have hthree : crowded.length = 3 := rfl
  omega

end StreamPodLogs
