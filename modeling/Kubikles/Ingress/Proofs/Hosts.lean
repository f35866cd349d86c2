/-
What is read back from the hosts file.

# The argument

`removeExistingManagedBlock` leaves lines that no marker begins
(`Neutral`), and a scan of such lines stays outside of the block
(`parseLines_neutral`). So nothing managed is read back from what it
leaves (`managed_removed`), and from what it leaves with a block behind
it exactly the entries of the block (`managed_replaced`), given that each
of them reads as one line of two fields (`Entry.Readable`): that is what
the check of the hostnames is good for (`printed_of_valid`).
-/
import Kubikles.Ingress.Hosts

namespace Hosts

open Text (newline space trimSpace fields unlines plain)
open Scanner (dropCR)

variable {content : Text} {entries : List Entry} {ls rest : List Text}
variable {l : Text} {inManagedBlock : Bool} {env : Env} {h h' : Host}
variable {httpsPort httpPort : Int}

-- ======== lines

def Neutral (l : Text) : Prop :=
  beginMarker.isPrefixOf (trimSpace l) = false
    ∧ endMarker.isPrefixOf (trimSpace l) = false

def Fits (l : Text) : Prop := newline ∉ l ∧ l.length < maxScanTokenSize

theorem neutral_dropCR (h : Neutral l) : Neutral (dropCR l) := by
  unfold Neutral
  rw [Text.trimSpace_dropCR]
  exact h

theorem kept_neutral (h : l ∈ keptLines inManagedBlock ls) :
    l ∈ ls ∧ Neutral l := by
  induction ls generalizing inManagedBlock with
  | nil => exact absurd h List.not_mem_nil
  | cons line ls ih =>
    have hlater : ∀ {b}, l ∈ keptLines b ls →
        l ∈ line :: ls ∧ Neutral l := fun h =>
      ⟨List.mem_cons_of_mem _ (ih h).1, (ih h).2⟩
    rw [keptLines] at h
    split at h
    · exact hlater h
    next hbegin =>
      split at h
      · exact hlater h
      next hend =>
        split at h
        · exact hlater h
        · rcases List.mem_cons.mp h with rfl | h
          · exact ⟨List.mem_cons_self .., Bool.eq_false_iff.mpr hbegin,
              Bool.eq_false_iff.mpr hend⟩
          · exact hlater h

theorem fits_of_line (h : l ∈ lines content) : Fits l := by
  obtain ⟨piece, hpiece, hlength, rfl⟩ := Scanner.piece_of_token h
  have hpart := Scanner.dropCR_isBeginning piece
  exact ⟨fun hmem => Text.newline_notMem_split hpiece
    (hpart.subset hmem), hpart.length_le.trans_lt hlength⟩

theorem lines_unlines (h : ∀ l ∈ ls, Fits l) :
    lines (unlines ls) = ls.map dropCR := by
  unfold lines
  rw [Text.split_unlines fun l hl => (h l hl).1]
  exact Scanner.scanPieces_lines fun l hl => (h l hl).2

theorem remove_eq (content : Text) :
    ∃ kept, removeExistingManagedBlock content = unlines kept
      ∧ ∀ l ∈ kept, Neutral l ∧ Fits l := by
  refine ⟨(keptLines false (lines content)).rdropWhile (· = []), ?_, ?_⟩
  · refine Text.rdropWhile_unlines fun l hl => ?_
    exact (fits_of_line (kept_neutral hl).1).1
  · intro l hl
    obtain ⟨hline, hneutral⟩ :=
      kept_neutral ((List.rdropWhile_prefix _ _).subset hl)
    exact ⟨hneutral, fits_of_line hline⟩

-- ======== parsing

theorem parseLines_neutral (h : ∀ l ∈ ls, Neutral l) :
    parseLines false (ls ++ rest) = parseLines false rest := by
  induction ls with
  | nil => rfl
  | cons l ls ih =>
    obtain ⟨hbegin, hend⟩ := h l (List.mem_cons_self ..)
    rw [List.cons_append, parseLines, hbegin, hend]
    exact ih fun m hm => h m (List.mem_cons_of_mem _ hm)

theorem managed_removed (content : Text) :
    parseManagedEntries (removeExistingManagedBlock content) = [] := by
  obtain ⟨kept, hremove, hkept⟩ := remove_eq content
  unfold parseManagedEntries
  rw [hremove, lines_unlines fun l hl => (hkept l hl).2,
    ← List.append_nil (kept.map dropCR), parseLines_neutral]
  · rfl
  · intro l hl
    obtain ⟨m, hm, rfl⟩ := List.mem_map.mp hl
    exact neutral_dropCR (hkept m hm).1

-- ======== entries

/-- An entry that reads as it is written: two words of printed
characters, no comment, and not too long. -/
structure Entry.Printed (e : Entry) : Prop where
  ip_plain : ∀ b ∈ e.ip, plain b = true
  ip_head : ∃ b, e.ip.head? = some b ∧ b ≠ hash
  hostname_plain : ∀ b ∈ e.hostname, plain b = true
  hostname_ne : e.hostname ≠ []
  short : e.line.length < maxScanTokenSize

/-- An entry that is two words, no comment, and not too long. -/
structure Entry.Readable (e : Entry) : Prop where
  ip : Text.Solid e.ip
  ip_head : ∃ b, e.ip.head? = some b ∧ b ≠ hash
  hostname : Text.Solid e.hostname
  hostname_ne : e.hostname ≠ []
  short : e.line.length < maxScanTokenSize

theorem Entry.Printed.readable {e : Entry} (he : e.Printed) :
    e.Readable where
  ip := Text.solid_of_plain he.ip_plain
  ip_head := he.ip_head
  hostname := Text.solid_of_plain he.hostname_plain
  hostname_ne := he.hostname_ne
  short := he.short

/-- A line of the block holds no white space but the one between its
words. -/
theorem Entry.Readable.notMem {e : Entry} (he : e.Readable) {b : UInt8}
    (hb : Text.space1 b = true) (hascii : b < 0x80) (hne : b ≠ space) :
    b ∉ e.line := by
  intro hmem
  rcases List.mem_append.mp hmem with hmem | hmem
  · exact he.ip.notMem hb hascii hmem
  · rcases List.mem_cons.mp hmem with heq | hmem
    · exact hne heq
    · exact he.hostname.notMem hb hascii hmem

theorem Entry.Readable.fits {e : Entry} (he : e.Readable) : Fits e.line :=
  ⟨he.notMem rfl (by decide) (by decide), he.short⟩

theorem Entry.Readable.token {e : Entry} (he : e.Readable) :
    dropCR e.line = e.line :=
  Scanner.dropCR_of_notMem (he.notMem rfl (by decide) (by decide))

theorem Entry.Readable.ip_ne {e : Entry} (he : e.Readable) : e.ip ≠ [] := by
  obtain ⟨b, hhead, -⟩ := he.ip_head
  intro hnil
  rw [hnil] at hhead
  cases hhead

theorem Entry.Readable.trimSpace {e : Entry} (he : e.Readable) :
    Text.trimSpace e.line = e.line :=
  Text.trimSpace_pair he.ip he.hostname he.ip_ne he.hostname_ne

theorem Entry.Readable.line_head {e : Entry} (he : e.Readable) :
    ∃ b tail, e.line = b :: tail ∧ b ≠ hash := by
  obtain ⟨b, hhead, hb⟩ := he.ip_head
  obtain ⟨tail, htail⟩ := List.head?_eq_some_iff.mp hhead
  refine ⟨b, tail ++ space :: e.hostname, ?_, hb⟩
  unfold Entry.line
  rw [htail, List.cons_append]

theorem Entry.Readable.no_marker {e : Entry} (he : e.Readable)
    {marker : Text} (hmarker : marker.head? = some hash) :
    marker.isPrefixOf (Text.trimSpace e.line) = false := by
  obtain ⟨rest, rfl⟩ := List.head?_eq_some_iff.mp hmarker
  obtain ⟨b, tail, hcons, hb⟩ := he.line_head
  rw [he.trimSpace, hcons, List.isPrefixOf, beq_false_of_ne hb.symm,
    Bool.false_and]

theorem parseLines_entry {e : Entry} (he : e.Readable) :
    parseLines true (e.line :: rest) = e :: parseLines true rest := by
  obtain ⟨b, tail, hcons, hb⟩ := he.line_head
  have hnonempty : e.line ≠ [] := hcons ▸ List.cons_ne_nil b tail
  have hcomment : e.line.head? ≠ some hash := by
    rw [hcons]
    exact fun h => hb (Option.some.inj h)
  have hfields : fields e.line = [e.ip, e.hostname] :=
    Text.fields_pair he.ip he.hostname he.ip_ne he.hostname_ne
  rw [parseLines, he.no_marker rfl, he.no_marker rfl,
    if_neg Bool.false_ne_true, if_neg Bool.false_ne_true, he.trimSpace,
    if_pos ⟨rfl, hnonempty, hcomment⟩, hfields]

theorem parseLines_entries (h : ∀ e ∈ entries, e.Readable) :
    parseLines true (entries.map Entry.line ++ rest)
      = entries ++ parseLines true rest := by
  induction entries with
  | nil => rfl
  | cons e entries ih =>
    rw [List.map_cons, List.cons_append,
      parseLines_entry (h e (List.mem_cons_self ..)),
      ih fun e he => h e (List.mem_cons_of_mem _ he)]
    rfl

theorem parseLines_begin :
    parseLines inManagedBlock (beginMarker :: rest)
      = parseLines true rest := by
  have hmarker : beginMarker.isPrefixOf (trimSpace beginMarker) = true := rfl
  rw [parseLines, if_pos hmarker]

theorem parseLines_end :
    parseLines inManagedBlock (endMarker :: rest)
      = parseLines false rest := by
  have hbegin : beginMarker.isPrefixOf (trimSpace endMarker) = false := rfl
  have hend : endMarker.isPrefixOf (trimSpace endMarker) = true := rfl
  rw [parseLines, hbegin, if_neg Bool.false_ne_true, if_pos hend]

theorem lines_block (hls : ∀ l ∈ ls, Fits l) (hnil : entries ≠ [])
    (h : ∀ e ∈ entries, e.Readable) :
    lines (unlines ls ++ buildEntriesContent entries)
      = ls.map dropCR
        ++ ([] :: beginMarker :: entries.map Entry.line ++ [endMarker]) := by
  have hblock : ∀ l ∈ [] :: beginMarker :: entries.map Entry.line
      ++ [endMarker], Fits l ∧ dropCR l = l := by
    intro l hl
    rw [List.mem_append, List.mem_cons, List.mem_cons,
      List.mem_singleton] at hl
    rcases hl with (rfl | rfl | hl) | rfl
    · exact ⟨⟨List.not_mem_nil, by decide⟩, rfl⟩
    · exact ⟨⟨by decide, by decide⟩, by decide⟩
    · obtain ⟨e, he, rfl⟩ := List.mem_map.mp hl
      exact ⟨(h e he).fits, (h e he).token⟩
    · exact ⟨⟨by decide, by decide⟩, by decide⟩
  have hmap := List.map_congr_left fun l hl => (hblock l hl).2
  unfold buildEntriesContent
  rw [if_neg hnil, ← Text.unlines_append, lines_unlines]
  · rw [List.map_append, hmap, List.map_id']
  · intro l hl
    rcases List.mem_append.mp hl with hl | hl
    · exact hls l hl
    · exact (hblock l hl).1

theorem managed_replaced (content : Text)
    (h : ∀ e ∈ entries, e.Readable) :
    parseManagedEntries (removeExistingManagedBlock content
      ++ buildEntriesContent entries) = entries := by
  by_cases hnil : entries = []
  · subst hnil
    show parseManagedEntries (removeExistingManagedBlock content ++ []) = []
    rw [List.append_nil, managed_removed]
  · obtain ⟨kept, hremove, hkept⟩ := remove_eq content
    unfold parseManagedEntries
    rw [hremove, lines_block (fun l hl => (hkept l hl).2) hnil h,
      parseLines_neutral]
    · rw [List.cons_append, List.cons_append]
      show parseLines false (beginMarker :: _) = _
      rw [parseLines_begin, parseLines_entries h, parseLines_end]
      exact List.append_nil _
    · intro l hl
      obtain ⟨m, hm, rfl⟩ := List.mem_map.mp hl
      exact neutral_dropCR (hkept m hm).1

-- ======== hostnames

theorem plain_of_label {b : UInt8}
    (h : alphanumeric b = true ∨ b = hyphen) : plain b = true := by
  unfold plain
  rw [Bool.and_eq_true, decide_eq_true_eq, decide_eq_true_eq,
    UInt8.le_iff_toNat_le, UInt8.le_iff_toNat_le]
  show 33 ≤ b.toNat ∧ b.toNat ≤ 126
  rcases h with h | rfl
  · unfold alphanumeric at h
    rw [Bool.or_eq_true, Bool.or_eq_true, Bool.and_eq_true,
      Bool.and_eq_true, Bool.and_eq_true] at h
    simp only [decide_eq_true_eq, UInt8.le_iff_toNat_le] at h
    have h : (48 ≤ b.toNat ∧ b.toNat ≤ 57 ∨ 65 ≤ b.toNat ∧ b.toNat ≤ 90)
        ∨ 97 ≤ b.toNat ∧ b.toNat ≤ 122 := h
    omega
  · decide

theorem printed_of_valid {hostname : Text}
    (h : validateHostname hostname = none) :
    (∀ b ∈ hostname, plain b = true) ∧ hostname ≠ []
      ∧ hostname.length ≤ 253 := by
  unfold validateHostname at h
  split at h
  · cases h
  next hne =>
    split at h
    · cases h
    next hlength =>
      split at h
      · cases h
      next hregex =>
        refine ⟨fun b hb => ?_, hne, not_lt.mp hlength⟩
        by_cases hdot : b = dot
        · rw [hdot]
          decide
        · have hflat : b ∈ (hostname.splitOn dot).flatten := by
            rw [Text.flatten_splitOn]
            exact List.mem_filter.mpr ⟨hb, decide_eq_true hdot⟩
          obtain ⟨label, hlabel, hmem⟩ := List.mem_flatten.mp hflat
          have hall := List.all_eq_true.mp (not_not.mp hregex) label hlabel
          unfold isLabel at hall
          rw [Bool.and_eq_true, Bool.and_eq_true] at hall
          have hb := List.all_eq_true.mp hall.1.2 b hmem
          rw [Bool.or_eq_true, beq_iff_eq] at hb
          exact plain_of_label hb

theorem valid_of_validateEntries (h : validateEntries entries = none)
    {e : Entry} (he : e ∈ entries) : validateHostname e.hostname = none :=
  List.findSome?_eq_none_iff.mp h e he

-- ======== updates

theorem redirect_content (env : Env) (httpsPort httpPort : Int)
    (h : Host) : (h.redirect env httpsPort httpPort).content = h.content := by
  have hsetup : ∀ (fromPort toPort : Int) (h : Host),
      (h.setupIptablesRedirect env fromPort toPort).content
        = h.content := by
    intro fromPort toPort h
    unfold Host.setupIptablesRedirect
    split <;> rfl
  unfold Host.redirect
  split
  · split
    · rw [hsetup, hsetup]
    · rw [hsetup]
  · split
    · rw [hsetup]
    · rfl

theorem write_cases (env : Env) (newContent : Text) (h : Host) :
    h.write env newContent = ({ h with content := newContent }, none)
      ∨ ∃ err, h.write env newContent = (h, some err) := by
  unfold Host.write
  split
  · exact Or.inr ⟨_, rfl⟩
  · exact Or.inr ⟨_, rfl⟩
  · exact Or.inr ⟨_, rfl⟩
  · exact Or.inl rfl

/-- `AddEntriesWithPortRedirect` has nothing to add, replaces the block
and sets up the redirects, or returns an error and does nothing. -/
theorem addEntries_cases (env : Env) (entries : List Entry)
    (httpsPort httpPort : Int) (h : Host) :
    (entries = []
        ∧ h.addEntriesWithPortRedirect env entries httpsPort httpPort
          = (h, none))
      ∨ (entries ≠ [] ∧ validateEntries entries = none
        ∧ h.addEntriesWithPortRedirect env entries httpsPort httpPort
          = (Host.redirect env httpsPort httpPort
              { h with content := removeExistingManagedBlock h.content
                  ++ buildEntriesContent entries }, none))
      ∨ entries ≠ [] ∧ ∃ err,
        h.addEntriesWithPortRedirect env entries httpsPort httpPort
          = (h, some err) := by
  unfold Host.addEntriesWithPortRedirect
  by_cases hnil : entries = []
  · exact Or.inl ⟨hnil, if_pos hnil⟩
  · rw [if_neg hnil]
    refine Or.inr ?_
    cases hvalid : validateEntries entries with
    | some err => exact Or.inr ⟨hnil, _, rfl⟩
    | none =>
      cases env.readErr with
      | some err => exact Or.inr ⟨hnil, _, rfl⟩
      | none =>
        rcases write_cases env (removeExistingManagedBlock h.content
          ++ buildEntriesContent entries) h with hwrite | ⟨err, hwrite⟩
        · exact Or.inl ⟨hnil, rfl, by simp only [hwrite]⟩
        · exact Or.inr ⟨hnil, err, by simp only [hwrite]⟩

theorem removeIptablesRedirect_content (env : Env)
    (fromPort toPort : Int) (h : Host) :
    (h.removeIptablesRedirect env fromPort toPort).content
      = h.content := by
  unfold Host.removeIptablesRedirect
  split <;> rfl

/-- `RemoveEntries` leaves nothing managed, or returns an error and
leaves the file alone. -/
theorem removeEntries_cases (env : Env) (h : Host) :
    (∃ h', h.removeEntries env = (h', none) ∧ h'.managed = [])
      ∨ ∃ h' err, h.removeEntries env = (h', some err)
        ∧ h'.content = h.content := by
  unfold Host.removeEntries Host.removeEntriesWithPortRedirect
  cases env.readErr with
  | some err => exact Or.inr ⟨h, _, rfl, rfl⟩
  | none =>
    have hcontent : ((h.removeIptablesRedirect env 443
        8443).removeIptablesRedirect env 80 8080).content = h.content := by
      rw [removeIptablesRedirect_content, removeIptablesRedirect_content]
    by_cases hsame : h.content = removeExistingManagedBlock h.content
    · refine Or.inl ⟨_, if_pos (hcontent.trans hsame), ?_⟩
      unfold Host.managed
      rw [hcontent, hsame, managed_removed]
    · have hne := fun heq => hsame (hcontent.symm.trans heq)
      simp only [if_neg hne]
      rcases write_cases env (removeExistingManagedBlock h.content)
          ((h.removeIptablesRedirect env 443
            8443).removeIptablesRedirect env 80 8080)
        with hwrite | ⟨err, hwrite⟩
      · exact Or.inl ⟨_, hwrite, managed_removed h.content⟩
      · exact Or.inr ⟨_, err, hwrite, hcontent⟩

end Hosts
