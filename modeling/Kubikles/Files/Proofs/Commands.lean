/-
When a command line is the one that is meant.

What is put in a command line as it is has to be bare, and must not be
taken for a home directory or a pattern (`Unquoted`); nor must a directory
or a member be taken for an option. This is enough, as a quoted name is
always read as itself (`run_names`). That it is needed is seen by counting
(`downloadFolder_iff`, `uploadFolder_iff`): the command line has no quotes
and no backslashes but those of what its words stand for. Where names are
quoted, it has as many backslashes more as the names have single quotes,
each of which needs one, so the directory has no single quote, and no
other way to quote is left for it (`downloadFiles_iff`).
-/
import Kubikles.Files.Listing
import Kubikles.Lib.ShellWords

namespace Files

open Text Shell

variable {s directory : Text} {names : List Text}

-- ======== words

theorem tarMembers_iff {args : List Text} :
    tarMembers args = (names, [])
      ↔ args = names ∧ ∀ n ∈ names, isOption n = false := by
  unfold tarMembers
  rw [List.partition_eq_filter_filter, Prod.mk.injEq,
    List.filter_eq_nil_iff]
  constructor
  · rintro ⟨hnames, hoptions⟩
    have hall : ∀ n ∈ args, (!isOption n) = true := by
      intro n hn
      simpa using hoptions n hn
    rw [List.filter_eq_self.mpr hall] at hnames
    refine ⟨hnames, fun n hn => ?_⟩
    simpa using hall n (hnames ▸ hn)
  · rintro ⟨rfl, hall⟩
    refine ⟨List.filter_eq_self.mpr fun n hn => ?_, fun n hn => ?_⟩
    · simpa using hall n hn
    · simpa using hall n hn

theorem cdDirectory_iff {args : List Text} :
    cdDirectory args = some directory
      ↔ args = [directory] ∧ directory.head? ≠ some dash := by
  constructor
  · intro h
    unfold cdDirectory at h
    split at h
    · split at h
      · cases h
      next hhead =>
        cases h
        exact ⟨rfl, hhead⟩
    · cases h
  · rintro ⟨rfl, hhead⟩
    exact if_neg hhead

theorem literal_unquoted (h : Unquoted s) :
    Shell.Word.literal (s.map .bare) = true :=
  (literal_bare s).mpr ⟨h.tilde, h.pattern⟩

/-- A word of a command line with only bare pieces stands for what is taken
as it is. -/
theorem unquoted_of_bare {input : Text} {vs : List (List (List Text))}
    {ts : List Token} {list : AndList} (h : Reads input vs ts list)
    {w : Shell.Word} (hw : w ∈ words ts)
    (hbare : ∀ p ∈ w, ∃ b, p = .bare b) :
    Unquoted (Shell.Word.text w) := by
  obtain ⟨hmade, hne⟩ := h.wellMade hw
  have hliteral := h.literal w hw
  rw [eq_map_bare hbare] at hliteral
  obtain ⟨htilde, hpattern⟩ := (literal_bare _).mp hliteral
  exact ⟨bare_of_wellMade hmade hne hbare, htilde, hpattern⟩

-- ======== tokens

theorem bare_command : ∀ name ∈ [ofString "cd", ofString "tar",
    ofString "cf", ofString "-", ofString "gzip", ofString "gunzip",
    ofString "xf"], Bare name := by
  have hall : [ofString "cd", ofString "tar", ofString "cf", ofString "-",
      ofString "gzip", ofString "gunzip", ofString "xf"].all (fun name =>
        decide (name ≠ []) && (name.all Shell.inert
          && decide (name.head? ≠ some hash))) = true := by decide
  intro name hname
  have hbare := List.all_eq_true.mp hall name hname
  simp only [Bool.and_eq_true, decide_eq_true_eq] at hbare
  exact ⟨hbare.1, List.all_eq_true.mp hbare.2.1, hbare.2.2⟩

def word (name : String) : Shell.Word := (ofString name).map .bare

theorem text_word (name : String) :
    Shell.Word.text (word name) = ofString name :=
  text_bare _

theorem run_cd (s : Text) :
    run .between (ofString "cd " ++ s)
      = (run .between s).map (.word (word "cd") :: ·) := by
  have hcd : ofString "cd " = ofString "cd" ++ [space] := by decide
  rw [hcd, List.append_assoc]
  exact (bare_command _ (by simp)).run_space s

theorem run_tar (s : Text) :
    run .between ((ofString " && tar cf - ").tail ++ s)
      = (run .between s).map ([.operator [ampersand, ampersand],
        .word (word "tar"), .word (word "cf"), .word (word "-")] ++ ·) := by
  have htar : (ofString " && tar cf - ").tail
      = ampersand :: ampersand :: space :: (ofString "tar" ++ space
        :: (ofString "cf" ++ space :: (ofString "-" ++ [space]))) := by
    decide
  rw [htar]
  simp only [List.cons_append, List.append_assoc, List.nil_append]
  rw [run_and, run_space, (bare_command _ (by simp)).run_space,
    (bare_command _ (by simp)).run_space,
    (bare_command _ (by simp)).run_space]
  cases run .between s <;> rfl

theorem space_tar (s : Text) :
    ofString " && tar cf - " ++ s
      = space :: ((ofString " && tar cf - ").tail ++ s) := by
  have htar : ofString " && tar cf - "
      = space :: (ofString " && tar cf - ").tail := by decide
  conv_lhs => rw [htar]
  rfl

def gzipTokens : List Token := [.operator [bar], .word (word "gzip")]

theorem run_gzip : run .between (ofString " | gzip") = some gzipTokens := by
  decide

theorem space_gzip :
    ofString " | gzip" = space :: (ofString " | gzip").tail := by
  decide

theorem run_word_gzip (w : Shell.Word) :
    run (.word w) (ofString " | gzip") = some (.word w :: gzipTokens) := by
  have hrest := run_gzip
  rw [space_gzip, run_space] at hrest
  rw [space_gzip, run_word_space, hrest]
  rfl

theorem run_names (names : List Text) :
    run .between (joinWords (names.map quoted) ++ ofString " | gzip")
      = some ((names.map quotedWord).map .word ++ gzipTokens) := by
  induction names with
  | nil => exact run_gzip
  | cons n names ih =>
    cases names with
    | nil =>
      rw [List.map_cons, List.map_nil, joinWords_singleton, run_quoted,
        run_word_gzip]
      rfl
    | cons n' names =>
      rw [List.map_cons] at ih
      rw [List.map_cons, List.map_cons, joinWords_cons_cons,
        List.append_assoc, List.cons_append, run_quoted,
        run_word_space, ih]
      rfl

-- ======== enough

/-- A command line that archives is read as it is meant if what stands for
the directory and the members is. -/
theorem archives_of_run {members : Text} {ws : List Shell.Word}
    (hdirectory : Unquoted directory)
    (hdash : directory.head? ≠ some dash)
    (hoptions : ∀ n ∈ names, isOption n = false)
    (hrun : run .between (members ++ ofString " | gzip")
      = some (ws.map .word ++ gzipTokens))
    (hliteral : ∀ w ∈ ws, Shell.Word.literal w = true)
    (htext : ws.map Shell.Word.text = names) :
    Archives (tarCommand directory members) directory names := by
  have htokens : tokens (tarCommand directory members)
      = some ([word "cd", directory.map .bare].map .word
        ++ .operator [ampersand, ampersand] :: ([word "tar", word "cf",
          word "-"] ++ ws).map .word ++ gzipTokens) := by
    unfold tokens tarCommand
    rw [run_cd, space_tar, hdirectory.bare.run_space, run_tar, hrun]
    simp
  have hparse : parse [] ([word "cd", directory.map .bare].map .word
        ++ .operator [ampersand, ampersand] :: ([word "tar", word "cf",
          word "-"] ++ ws).map .word ++ gzipTokens)
      = some [[[word "cd", directory.map .bare]],
        [[word "tar", word "cf", word "-"] ++ ws, [word "gzip"]]] := by
    rw [List.append_assoc, parse_words, List.nil_append, List.cons_append,
      parse, if_neg (List.cons_ne_nil _ _), if_pos rfl, parse_words,
      List.nil_append]
    rfl
  have hcommand : ∀ w ∈ [word "cd", word "tar", word "cf", word "-",
      word "gzip"], Shell.Word.literal w = true :=
    List.all_eq_true.mp (by decide)
  refine ⟨[directory], names, ?_, cdDirectory_iff.mpr ⟨rfl, hdash⟩,
    tarMembers_iff.mpr ⟨rfl, hoptions⟩⟩
  refine Reads.shell ⟨htokens, hparse, ?_, ?_⟩
  · simp only [List.map_cons, List.map_nil, text_word, text_bare, htext,
      List.cons_append, List.nil_append]
  · have hflat : [word "cd", directory.map .bare]
        ++ (([word "tar", word "cf", word "-"] ++ ws) ++ [word "gzip"])
        = words _ := flatten_parse hparse
    intro w hw
    rw [← hflat] at hw
    simp only [List.mem_append, List.mem_cons, List.not_mem_nil,
      or_false] at hw
    rcases hw with (rfl | rfl) | ((rfl | rfl | rfl) | hw) | rfl
    · exact hcommand _ (by simp)
    · exact literal_unquoted hdirectory
    · exact hcommand _ (by simp)
    · exact hcommand _ (by simp)
    · exact hcommand _ (by simp)
    · exact hliteral w hw
    · exact hcommand _ (by simp)

theorem extracts_of_unquoted (hdirectory : Unquoted directory)
    (hdash : directory.head? ≠ some dash) :
    Extracts (uploadFolder directory) directory := by
  have hrest : run .between (ofString "&& gunzip | tar xf -")
      = some [.operator [ampersand, ampersand], .word (word "gunzip"),
        .operator [bar], .word (word "tar"), .word (word "xf"),
        .word (word "-")] := by decide
  have hspace : ofString " && gunzip | tar xf -"
      = space :: ofString "&& gunzip | tar xf -" := by decide
  have htokens : tokens (uploadFolder directory)
      = some [.word (word "cd"), .word (directory.map .bare),
        .operator [ampersand, ampersand], .word (word "gunzip"),
        .operator [bar], .word (word "tar"), .word (word "xf"),
        .word (word "-")] := by
    unfold tokens uploadFolder
    rw [run_cd, hspace, hdirectory.bare.run_space, hrest]
    rfl
  have hcommand : ∀ w ∈ [word "cd", word "gunzip", word "tar", word "xf",
      word "-"], Shell.Word.literal w = true :=
    List.all_eq_true.mp (by decide)
  refine ⟨[directory], ?_, cdDirectory_iff.mpr ⟨rfl, hdash⟩⟩
  refine Reads.shell ⟨htokens, rfl, ?_, ?_⟩
  · simp only [List.map_cons, List.map_nil, List.nil_append,
      List.cons_append, text_word, text_bare]
  · intro w hw
    simp only [words, List.mem_cons, List.not_mem_nil, or_false] at hw
    rcases hw with rfl | rfl | rfl | rfl | rfl | rfl
    · exact hcommand _ (by simp)
    · exact literal_unquoted hdirectory
    · exact hcommand _ (by simp)
    · exact hcommand _ (by simp)
    · exact hcommand _ (by simp)
    · exact hcommand _ (by simp)

-- ======== needed

/-- A command line without more quotes and backslashes than its words have
has them as they are. -/
theorem unquoted_of_count {input : Text} {vs : List (List (List Text))}
    {ts : List Token} {list : AndList} (h : Reads input vs ts list)
    (hcount : ∀ c ∈ [quote, doubleQuote, backslash],
      input.count c ≤ vs.flatten.flatten.flatten.count c) :
    ∀ s ∈ vs.flatten.flatten, Unquoted s := by
  have hmarks : ∀ p ∈ (words ts).flatten, ∃ b, p = .bare b := by
    refine bare_of_marks fun c hc => ?_
    have hmarks := h.marks_le c
    have hle := hcount c hc
    omega
  intro s hs
  rw [← h.words_text] at hs
  obtain ⟨w, hw, rfl⟩ := List.mem_map.mp hs
  exact unquoted_of_bare h hw fun p hp =>
    hmarks p (List.mem_flatten.mpr ⟨w, hw, hp⟩)

theorem count_command {c : UInt8}
    (hc : c ∈ [quote, doubleQuote, backslash]) :
    ∀ part ∈ [ofString "cd ", ofString " && tar cf - ",
      ofString " | gzip", ofString " && gunzip | tar xf -"],
      part.count c = 0 := by
  have hall : [quote, doubleQuote, backslash].all (fun c =>
      [ofString "cd ", ofString " && tar cf - ", ofString " | gzip",
        ofString " && gunzip | tar xf -"].all fun part =>
          decide (part.count c = 0)) = true := by decide
  intro part hpart
  exact of_decide_eq_true (List.all_eq_true.mp
    (List.all_eq_true.mp hall c hc) part hpart)

theorem count_tarCommand {c : UInt8}
    (hc : c ∈ [quote, doubleQuote, backslash]) (members : Text) :
    (tarCommand directory members).count c
      = directory.count c + members.count c := by
  have hparts := count_command hc
  unfold tarCommand
  rw [List.count_append, List.count_append, List.count_append,
    List.count_append, hparts _ (by simp), hparts (ofString " && tar cf - ")
      (by simp), hparts (ofString " | gzip") (by simp)]
  omega

/-- What `DownloadFolder` runs is what is meant exactly if the parent
directory and the folder's name are taken as they are, and not for
options. -/
theorem downloadFolder_iff (remotePath : Text) :
    Archives (downloadFolder remotePath) (Path.dir remotePath)
        [Path.base remotePath]
      ↔ Unquoted (Path.dir remotePath)
        ∧ (Path.dir remotePath).head? ≠ some dash
        ∧ Unquoted (Path.base remotePath)
        ∧ isOption (Path.base remotePath) = false := by
  generalize hdirectory : Path.dir remotePath = directory
  generalize hname : Path.base remotePath = name
  have hcommand : downloadFolder remotePath = tarCommand directory name := by
    rw [← hdirectory, ← hname]
    rfl
  rw [hcommand]
  constructor
  · rintro ⟨cdArgs, tarArgs, hshell, hcd, htar⟩
    obtain ⟨rfl, hdash⟩ := cdDirectory_iff.mp hcd
    obtain ⟨rfl, hoptions⟩ := tarMembers_iff.mp htar
    obtain ⟨ts, list, hreads⟩ := reads_of_shell hshell
    have hall := unquoted_of_count hreads fun c hc => by
      rw [count_tarCommand hc]
      simp only [List.flatten_cons, List.flatten_nil, List.append_nil,
        List.cons_append, List.nil_append, List.count_append]
      omega
    exact ⟨hall directory (by simp), hdash, hall name (by simp),
      hoptions name List.mem_cons_self⟩
  · rintro ⟨hunquoted, hdash, hname, hoption⟩
    have hrun : run .between (name ++ ofString " | gzip")
        = some ([name.map .bare].map .word ++ gzipTokens) := by
      have hgzip := run_gzip
      rw [space_gzip, run_space] at hgzip
      rw [space_gzip, hname.bare.run_space, hgzip]
      rfl
    refine archives_of_run hunquoted hdash ?_ hrun ?_ ?_
    · intro n hn
      rw [List.mem_singleton.mp hn]
      exact hoption
    · intro w hw
      rw [List.mem_singleton.mp hw]
      exact literal_unquoted hname
    · simp only [List.map_cons, List.map_nil, text_bare]

/-- What `UploadFolder` runs is what is meant exactly if the directory is
taken as it is, and not for an option. -/
theorem uploadFolder_iff (remotePath : Text) :
    Extracts (uploadFolder remotePath) remotePath
      ↔ Unquoted remotePath ∧ remotePath.head? ≠ some dash := by
  constructor
  · rintro ⟨cdArgs, hshell, hcd⟩
    obtain ⟨rfl, hdash⟩ := cdDirectory_iff.mp hcd
    obtain ⟨ts, list, hreads⟩ := reads_of_shell hshell
    have hall := unquoted_of_count hreads fun c hc => by
      have hparts := count_command hc
      unfold uploadFolder
      rw [List.count_append, List.count_append, hparts _ (by simp),
        hparts (ofString " && gunzip | tar xf -") (by simp)]
      simp only [List.flatten_cons, List.flatten_nil, List.append_nil,
        List.cons_append, List.nil_append, List.count_append]
      omega
    exact ⟨hall remotePath (by simp), hdash⟩
  · rintro ⟨hunquoted, hdash⟩
    exact extracts_of_unquoted hunquoted hdash

-- ======== quoted names

/-- A quoted name has a backslash more for each single quote. -/
theorem count_quoted (n : Text) :
    (quoted n).count doubleQuote = n.count doubleQuote
      ∧ (quoted n).count backslash = n.count backslash + n.count quote := by
  have hescape : (escapeQuotes n).count doubleQuote = n.count doubleQuote
      ∧ (escapeQuotes n).count backslash
        = n.count backslash + n.count quote := by
    induction n with
    | nil => exact ⟨rfl, rfl⟩
    | cons b n ih =>
      obtain ⟨hdouble, hback⟩ := ih
      have hcons : escapeQuotes (b :: n)
          = (if b = quote then [quote, backslash, quote, quote] else [b])
            ++ escapeQuotes n := rfl
      rw [hcons, List.count_append, List.count_append, hdouble, hback]
      by_cases hb : b = quote
      · have hpieces : [quote, backslash, quote, quote].count doubleQuote
              = 0
            ∧ [quote, backslash, quote, quote].count backslash = 1 := by
          decide
        have hdouble : (quote :: n).count doubleQuote
            = n.count doubleQuote := List.count_cons_of_ne (by decide)
        have hback : (quote :: n).count backslash = n.count backslash :=
          List.count_cons_of_ne (by decide)
        have hquote : (quote :: n).count quote = n.count quote + 1 :=
          List.count_cons_self
        rw [if_pos hb, hb]
        omega
      · rw [if_neg hb, List.count_cons_of_ne hb, List.count_singleton,
          List.count_singleton, List.count_cons, List.count_cons]
        omega
  have hends : [quote].count doubleQuote = 0
      ∧ [quote].count backslash = 0 := by decide
  unfold quoted
  rw [List.count_cons_of_ne (by decide), List.count_cons_of_ne (by decide),
    List.count_append, List.count_append]
  omega

theorem count_joinWords {c : UInt8} (hc : c ≠ space) (ws : List Text) :
    (joinWords ws).count c = ws.flatten.count c := by
  induction ws with
  | nil => rfl
  | cons w ws ih =>
    cases ws with
    | nil => rw [joinWords_singleton, List.flatten_singleton]
    | cons w' ws =>
      rw [joinWords_cons_cons, List.count_append, List.flatten_cons,
        List.count_append, List.count_cons_of_ne (Ne.symm hc), ih]

theorem count_names (names : List Text) :
    (joinWords (names.map quoted)).count doubleQuote
        = names.flatten.count doubleQuote
      ∧ (joinWords (names.map quoted)).count backslash
        = names.flatten.count backslash + names.flatten.count quote := by
  rw [count_joinWords (by decide), count_joinWords (by decide)]
  induction names with
  | nil => exact ⟨rfl, rfl⟩
  | cons n names ih =>
    obtain ⟨hdouble, hback⟩ := count_quoted n
    simp only [List.map_cons, List.flatten_cons, List.count_append]
    omega

theorem cd_word {members : Text} {vs : List (List Text)}
    {ts : List Token} {list : AndList}
    (h : Reads (tarCommand directory members)
      ([[ofString "cd", directory]] :: [vs]) ts list) :
    ∃ x ts', Shell.Word.text x = directory ∧ x ∈ words ts
      ∧ run .between (directory ++ space
        :: ((ofString " && tar cf - ").tail
          ++ (members ++ ofString " | gzip"))) = some (.word x :: ts') := by
  have htokens := h.tokens
  unfold tokens tarCommand at htokens
  rw [run_cd, space_tar] at htokens
  obtain ⟨ts', hrun, rfl⟩ := Option.map_eq_some_iff.mp htokens
  have hparse := h.parse
  rw [parse, List.nil_append] at hparse
  obtain ⟨args, cmds, list', rfl⟩ := parse_first hparse
  have htexts := h.texts
  rw [List.map_cons, List.map_cons] at htexts
  have hfirst := (List.cons.inj (List.cons.inj htexts).1).1
  rw [List.map_append] at hfirst
  have hargs : args.map Shell.Word.text = [directory] :=
    (List.cons.inj hfirst).2
  obtain ⟨x, args', rfl, htext, hnil⟩ := List.map_eq_cons_iff.mp hargs
  rw [List.map_eq_nil_iff.mp hnil] at hparse
  obtain ⟨ts'', rfl⟩ := parse_next (List.cons_ne_nil _ _) hparse
  refine ⟨x, ts'', htext, ?_, hrun⟩
  exact List.mem_cons_of_mem _ List.mem_cons_self

/-- What `DownloadFiles` runs is what is meant exactly if the directory is
taken as it is and not for an option, and no name is taken for one. -/
theorem downloadFiles_iff (basePath : Text) (names : List Text) :
    Archives (downloadFiles basePath names) basePath names
      ↔ Unquoted basePath ∧ basePath.head? ≠ some dash
        ∧ ∀ n ∈ names, isOption n = false := by
  constructor
  · rintro ⟨cdArgs, tarArgs, hshell, hcd, htar⟩
    obtain ⟨rfl, hdash⟩ := cdDirectory_iff.mp hcd
    obtain ⟨rfl, hoptions⟩ := tarMembers_iff.mp htar
    refine ⟨?_, hdash, hoptions⟩
    obtain ⟨ts, list, hreads⟩ := reads_of_shell hshell
    -- what the words' texts have of each mark
    have hvalues : ∀ c, basePath.count c + tarArgs.flatten.count c
        ≤ (([[ofString "cd", basePath]] : List (List Text))
          :: [[ofString "tar" :: ofString "cf" :: ofString "-" :: tarArgs,
            [ofString "gzip"]]]).flatten.flatten.flatten.count c := by
      intro c
      simp only [List.flatten_cons, List.flatten_nil, List.append_nil,
        List.cons_append, List.nil_append, List.flatten_append,
        List.count_append]
      omega
    have hcommand : ∀ c ∈ [quote, doubleQuote, backslash],
        (downloadFiles basePath tarArgs).count c = basePath.count c
          + (joinWords (tarArgs.map quoted)).count c := fun c hc =>
      count_tarCommand hc _
    obtain ⟨hnamesDouble, hnamesBack⟩ := count_names tarArgs
    have hdouble := hreads.marks_le doubleQuote
    rw [hcommand _ (by simp), hnamesDouble] at hdouble
    have hback := hreads.marks_le backslash
    rw [hcommand _ (by simp), hnamesBack] at hback
    have hvaluesDouble := hvalues doubleQuote
    have hvaluesBack := hvalues backslash
    have hvaluesQuote := hvalues quote
    obtain ⟨hle, husual⟩ := usual_of_marks hreads.pieces_wellMade
      (by omega)
    rw [hreads.pieces_text] at hle husual
    have hquote : basePath.count quote = 0 := by omega
    have hpieces := husual (by omega)
    obtain ⟨x, ts', htext, hx, hrun⟩ := cd_word hreads
    have hgrows := run_unquoted (List.count_eq_zero.mp hquote) (by
        intro w' ts' h
        rw [run_tar] at h
        obtain ⟨ts'', -, heq⟩ := Option.map_eq_some_iff.mp h
        cases heq) (Or.inl ⟨rfl, rfl⟩) hrun
    obtain ⟨w', hw', hbare⟩ := hgrows
    rw [List.nil_append] at hw'
    rw [← hw'] at hbare
    have hunquoted := unquoted_of_bare hreads hx (hbare fun p hp =>
      hpieces p (List.mem_flatten.mpr ⟨x, hx, hp⟩))
    rw [htext] at hunquoted
    exact hunquoted
  · rintro ⟨hunquoted, hdash, hoptions⟩
    refine archives_of_run hunquoted hdash hoptions (run_names names) ?_ ?_
    · intro w hw
      obtain ⟨n, -, rfl⟩ := List.mem_map.mp hw
      exact literal_quotedWord n
    · rw [List.map_map]
      exact (List.map_congr_left fun n _ => text_quotedWord n).trans
        (List.map_id names)

/-- The commands that are run are the ones that are meant exactly if what
is not quoted in them is taken as it is, and no directory and no member is
taken for an option. -/
theorem built_commands_iff (remotePath basePath targetPath : Text)
    (names : List Text) :
    (Archives (downloadFolder remotePath) (Path.dir remotePath)
          [Path.base remotePath]
        ↔ Unquoted (Path.dir remotePath)
          ∧ (Path.dir remotePath).head? ≠ some dash
          ∧ Unquoted (Path.base remotePath)
          ∧ isOption (Path.base remotePath) = false)
      ∧ (Archives (downloadFiles basePath names) basePath names
        ↔ Unquoted basePath ∧ basePath.head? ≠ some dash
          ∧ ∀ n ∈ names, isOption n = false)
      ∧ (Extracts (uploadFolder targetPath) targetPath
        ↔ Unquoted targetPath ∧ targetPath.head? ≠ some dash) :=
  ⟨downloadFolder_iff remotePath, downloadFiles_iff basePath names,
    uploadFolder_iff targetPath⟩

/-- A folder with a space in its name is taken for two, and a directory
with a semicolon ends the command. -/
theorem folder_with_space_split :
    shell (downloadFolder (ofString "/home/my docs"))
        = some [[[ofString "cd", ofString "/home"]],
          [[ofString "tar", ofString "cf", ofString "-", ofString "my",
            ofString "docs"], [ofString "gzip"]]]
      ∧ shell (uploadFolder (ofString "/tmp;reboot")) = none
      ∧ ¬ Archives (downloadFolder (ofString "/home/my docs"))
        (Path.dir (ofString "/home/my docs"))
        [Path.base (ofString "/home/my docs")] := by
  have hshell : shell (downloadFolder (ofString "/home/my docs"))
      = some [[[ofString "cd", ofString "/home"]],
        [[ofString "tar", ofString "cf", ofString "-", ofString "my",
          ofString "docs"], [ofString "gzip"]]] := by decide +kernel
  have hmembers : tarMembers [ofString "my", ofString "docs"]
      ≠ ([Path.base (ofString "/home/my docs")], []) := by decide +kernel
  refine ⟨hshell, by decide +kernel, ?_⟩
  rintro ⟨cdArgs, tarArgs, h, -, htar⟩
  rw [hshell] at h
  injection h with h
  injection h with _ h
  injection h with h
  injection h with h
  injection h with _ h
  injection h with _ h
  injection h with _ h
  rw [← h] at htar
  exact hmembers htar

end Files
