/-
The theme manager (theme.go).

# Themes

Of a theme the manager reads the ID, the name and whether it is built in;
the rest of it (its type, its colors, its fonts) is a parameter, and so is
the rest of the built-in themes (`look`).

# Files

The themes directory is what `os.ReadDir` returns of it, each entry with
what its file comes to: an error, something that is no theme, or a theme.
The file of the configuration holds the ID of a theme, or nothing that can
be read. The order in which `ReloadUserThemes` ranges over the map is an
argument.

# The argument

The themes of a directory are put into the map one after the other, so of an
ID the last one stays, whatever was there (`lookup_loadUserThemes`). A map in
which the built-in themes are as they were is cleared to just these; so what
a load leaves depends on the directory alone, and it leaves them alone
exactly if no file has one of their IDs (`loaded_iff`).
-/
import Kubikles.Lib.FinMap
import Kubikles.Lib.Machine

namespace Themes

open Machine (Step run Along Visits)

-- ======== the model

structure Theme (β : Type) where
  id : String
  name : String
  body : β
  isBuiltin : Bool
  filePath : String := ""
deriving DecidableEq

variable {β : Type}

/-- The IDs and names of the themes of `loadBuiltinThemes`. -/
def builtinNames : List (String × String) :=
  [("default-dark", "Default Dark"), ("solarized-dark", "Solarized Dark"),
    ("solarized-midnight", "Solarized Midnight"), ("phosphor", "Phosphor"),
    ("spring-meadow", "Spring Meadow"), ("briefcase", "Briefcase")]

def builtinThemes (look : String → β) : List (Theme β) :=
  builtinNames.map fun (id, name) =>
    { id, name, body := look id, isBuiltin := true }

/-- What a file of the directory comes to. -/
inductive Content (β : Type) where
  | unreadable
  /-- It is not the JSON of a theme. -/
  | unparsable
  | theme (theme : Theme β)
deriving DecidableEq

structure DirEntry (β : Type) where
  name : String
  isDir : Bool
  content : Content β
deriving DecidableEq

/-- What `os.ReadDir` returns, if the directory can be read. -/
abbrev Directory (β : Type) := Option (List (DirEntry β))

/-- `ThemeManager`, with the directory as it was when it was last
loaded. -/
structure ThemeManager (β : Type) where
  themes : FinMap String (Theme β) := ∅
  currentThemeID : String := ""
  loaded : Directory β := none

/-- The lower-case name of a file ends in `.json`. -/
def isThemeFile (name : String) : Bool :=
  ".json".toList.isSuffixOf (name.toList.map Char.toLower)

def DirEntry.theme? (themesDir : String) (entry : DirEntry β) :
    Option (Theme β) :=
  if entry.isDir || !isThemeFile entry.name then none
  else
    match entry.content with
    | .theme theme =>
      if theme.id = "" ∨ theme.name = "" then none
      else some { theme with
        isBuiltin := false, filePath := themesDir ++ "/" ++ entry.name }
    | _ => none

def loadBuiltinThemes (look : String → β)
    (themes : FinMap String (Theme β)) : FinMap String (Theme β) :=
  (builtinThemes look).foldl (fun m theme => m.insert theme.id theme) themes

def loadUserThemes (themesDir : String) (directory : Directory β)
    (themes : FinMap String (Theme β)) : FinMap String (Theme β) :=
  match directory with
  | none => themes
  | some entries =>
    entries.foldl (fun m entry =>
      match entry.theme? themesDir with
      | none => m
      | some theme => m.insert theme.id theme) themes

/-- `loadConfig`, of the ID the file holds. -/
def loadConfig (config : Option String)
    (themes : FinMap String (Theme β)) : String :=
  match config with
  | none => "default-dark"
  | some selectedTheme =>
    if (themes.lookup selectedTheme).isSome then selectedTheme
    else "default-dark"

def newThemeManager (look : String → β) (themesDir : String)
    (directory : Directory β) (config : Option String) : ThemeManager β :=
  let themes :=
    loadUserThemes themesDir directory (loadBuiltinThemes look ∅)
  { themes, currentThemeID := loadConfig config themes, loaded := directory }

namespace ThemeManager

def getCurrentTheme (m : ThemeManager β) : Option (Theme β) :=
  (m.themes.lookup m.currentThemeID).or (m.themes.lookup "default-dark")

def setTheme (themeID : String) (m : ThemeManager β) : ThemeManager β :=
  if (m.themes.lookup themeID).isSome then
    { m with currentThemeID := themeID }
  else m

/-- The loop of `ReloadUserThemes` that clears the themes that are not built
in. -/
def clearUserThemes (order : List String)
    (themes : FinMap String (Theme β)) : FinMap String (Theme β) :=
  FinMap.eraseAll themes
    (order.filter fun id => (themes.lookup id).any fun t => !t.isBuiltin)

def reloadUserThemes (themesDir : String) (directory : Directory β)
    (order : List String) (m : ThemeManager β) : ThemeManager β :=
  { m with
    themes := loadUserThemes themesDir directory
      (clearUserThemes order m.themes)
    loaded := directory }

end ThemeManager

/-- What can be done. The configuration of a start is what its file holds
then. -/
inductive Action (β : Type) where
  | startUp (directory : Directory β) (config : Option String)
  | setTheme (themeID : String)
  | reloadUserThemes (directory : Directory β) (order : List String)

def step (look : String → β) (themesDir : String) :
    Step (ThemeManager β) (Action β) Unit
  | .startUp directory config, _ =>
    some (newThemeManager look themesDir directory config, [])
  | .setTheme themeID, m => some (m.setTheme themeID, [])
  | .reloadUserThemes directory order, m =>
    if FinMap.Enumerates order m.themes then
      some (m.reloadUserThemes themesDir directory order, [])
    else none

-- ======== the law

def themesOf (themesDir : String) (directory : Directory β) :
    List (Theme β) :=
  (directory.getD []).filterMap (DirEntry.theme? themesDir)

/-- What is asked of the manager: the built-in themes are there under their
IDs, there is a current theme, and the other themes are those of the
directory. -/
structure Kept (look : String → β) (themesDir : String)
    (m : ThemeManager β) : Prop where
  builtin : ∀ theme ∈ builtinThemes look,
    m.themes.lookup theme.id = some theme
  current : m.getCurrentTheme.isSome
  user : ∀ theme, theme ∈ themesOf themesDir m.loaded
    ↔ theme.isBuiltin = false ∧ ∃ id, m.themes.lookup id = some theme

/-- No file of the directory has the ID of a built-in theme, and no two of
them have the same. -/
structure NoClash (themesDir : String) (directory : Directory β) : Prop where
  builtin : ∀ theme ∈ themesOf themesDir directory,
    theme.id ∉ builtinNames.map Prod.fst
  distinct : ∀ theme ∈ themesOf themesDir directory,
    ∀ theme' ∈ themesOf themesDir directory,
      theme.id = theme'.id → theme = theme'

/-- The directory has no clash where it is read. -/
def Action.NoClash (themesDir : String) : Action β → Prop
  | .startUp directory _ | .reloadUserThemes directory _ =>
    Themes.NoClash themesDir directory
  | .setTheme _ => True

-- ======== a load

variable {look : String → β} {themesDir : String} {directory : Directory β}
variable {m m' : ThemeManager β} {themes : FinMap String (Theme β)}
variable {theme theme' : Theme β} {id : String} {a : Action β}
variable {o : List Unit}

theorem loadUserThemes_eq (themesDir : String) (directory : Directory β)
    (themes : FinMap String (Theme β)) :
    loadUserThemes themesDir directory themes
      = FinMap.insertAll Theme.id (fun theme => theme) themes
        (themesOf themesDir directory) := by
  unfold loadUserThemes themesOf
  cases directory with
  | none => rfl
  | some entries =>
    show entries.foldl _ themes = List.foldl _ themes
      (entries.filterMap (DirEntry.theme? themesDir))
    rw [List.foldl_filterMap]
    congr 1
    funext m entry
    cases entry.theme? themesDir <;> rfl

theorem lookup_loadUserThemes (themesDir : String) (directory : Directory β)
    (themes : FinMap String (Theme β)) (id : String) :
    (loadUserThemes themesDir directory themes).lookup id
      = (FinMap.lastBy Theme.id id (themesOf themesDir directory)).or
        (themes.lookup id) := by
  rw [loadUserThemes_eq, FinMap.lookup_insertAll, Option.map_id']

theorem isBuiltin_of_mem (h : theme ∈ themesOf themesDir directory) :
    theme.isBuiltin = false := by
  obtain ⟨entry, -, hentry⟩ := List.mem_filterMap.mp h
  unfold DirEntry.theme? at hentry
  split at hentry
  · cases hentry
  · split at hentry
    · split at hentry
      · cases hentry
      · rw [← Option.some.inj hentry]
    · cases hentry

theorem map_id_builtinThemes (look : String → β) :
    (builtinThemes look).map Theme.id = builtinNames.map Prod.fst :=
  List.map_map

theorem builtin_of_mem (h : theme ∈ builtinThemes look) :
    theme.isBuiltin = true := by
  obtain ⟨_, -, rfl⟩ := List.mem_map.mp h
  rfl

theorem builtin_unique : ∀ theme ∈ builtinThemes look,
    ∀ theme' ∈ builtinThemes look, theme.id = theme'.id →
      theme = theme' := by
  intro theme h theme' h' hid
  have hnodup : ((builtinThemes look).map Theme.id).Nodup := by
    rw [map_id_builtinThemes]
    decide
  exact List.inj_on_of_nodup_map hnodup h h' hid

/-- A map of the built-in themes and nothing else. -/
def Plain (look : String → β) (themes : FinMap String (Theme β)) : Prop :=
  ∀ id theme, themes.lookup id = some theme
    ↔ theme ∈ builtinThemes look ∧ theme.id = id

theorem plain_loadBuiltinThemes (look : String → β) :
    Plain look (loadBuiltinThemes look ∅) := by
  intro id theme
  show (FinMap.insertAll Theme.id (fun theme => theme) ∅
    (builtinThemes look)).lookup id = some theme ↔ _
  rw [FinMap.lookup_insertAll_empty, Option.map_id']
  exact FinMap.lastBy_eq_some_iff_mem builtin_unique

/-- Every theme is under its ID, and those that are built in are as they
were. -/
def Filed (look : String → β) (themes : FinMap String (Theme β)) : Prop :=
  ∀ id theme, themes.lookup id = some theme →
    theme.id = id ∧ (theme.isBuiltin = true → theme ∈ builtinThemes look)

theorem Plain.filed_load (h : Plain look themes) (themesDir : String)
    (directory : Directory β) :
    Filed look (loadUserThemes themesDir directory themes) := by
  intro id theme hlookup
  rw [lookup_loadUserThemes] at hlookup
  cases hlast : FinMap.lastBy Theme.id id (themesOf themesDir directory) with
  | some last =>
    rw [hlast, Option.some_or] at hlookup
    obtain rfl := Option.some.inj hlookup
    refine ⟨(FinMap.lastBy_eq_some_iff.mp hlast).1, fun hbuiltin => ?_⟩
    rw [isBuiltin_of_mem (FinMap.mem_of_lastBy hlast)] at hbuiltin
    cases hbuiltin
  | none =>
    rw [hlast, Option.none_or] at hlookup
    obtain ⟨hmem, hid⟩ := (h id theme).mp hlookup
    exact ⟨hid, fun _ => hmem⟩

/-- A load of a directory leaves the manager as it should be exactly if
nothing in it clashes. -/
theorem loaded_iff (h : Plain look themes) (currentThemeID : String) :
    Kept look themesDir
        ⟨loadUserThemes themesDir directory themes, currentThemeID, directory⟩
      ↔ NoClash themesDir directory := by
  constructor
  · intro hkept
    constructor
    · intro theme hmem hid
      rw [← map_id_builtinThemes look] at hid
      obtain ⟨builtin, hbuiltin, hsame⟩ := List.mem_map.mp hid
      have hlookup := hkept.builtin builtin hbuiltin
      rw [hsame] at hlookup
      have hfound : ∃ last ∈ themesOf themesDir directory,
          (loadUserThemes themesDir directory themes).lookup theme.id
            = some last := by
        rw [lookup_loadUserThemes]
        cases hlast : FinMap.lastBy Theme.id theme.id
            (themesOf themesDir directory) with
        | some last => exact ⟨last, FinMap.mem_of_lastBy hlast, rfl⟩
        | none =>
          have hnone := List.find?_eq_none.mp hlast theme
            (List.mem_reverse.mpr hmem)
          simp at hnone
      obtain ⟨last, hlast, hsome⟩ := hfound
      obtain rfl := Option.some.inj (hlookup.symm.trans hsome)
      have hfalse := isBuiltin_of_mem hlast
      rw [builtin_of_mem hbuiltin] at hfalse
      cases hfalse
    · intro theme hmem theme' hmem' hid
      obtain ⟨-, id, hlookup⟩ := (hkept.user theme).mp hmem
      obtain ⟨-, id', hlookup'⟩ := (hkept.user theme').mp hmem'
      have hfiled := h.filed_load themesDir directory
      rw [← (hfiled _ _ hlookup).1, hid] at hlookup
      rw [← (hfiled _ _ hlookup').1] at hlookup'
      exact Option.some.inj (hlookup.symm.trans hlookup')
  · intro hclash
    have hlast := fun id theme =>
      FinMap.lastBy_eq_some_iff_mem (k := id) (a := theme) hclash.distinct
    have hbuiltin : ∀ theme ∈ builtinThemes look,
        (loadUserThemes themesDir directory themes).lookup theme.id
          = some theme := by
      intro theme hmem
      rw [lookup_loadUserThemes]
      cases hfind : FinMap.lastBy Theme.id theme.id
          (themesOf themesDir directory) with
      | some last =>
        obtain ⟨hin, hid⟩ := (hlast _ _).mp hfind
        refine absurd ?_ (hclash.builtin last hin)
        rw [hid, ← map_id_builtinThemes look]
        exact List.mem_map_of_mem hmem
      | none => exact (h _ _).mpr ⟨hmem, rfl⟩
    constructor
    · exact hbuiltin
    · have hdefault := hbuiltin
        ⟨"default-dark", "Default Dark", look "default-dark", true, ""⟩
        (List.mem_map.mpr ⟨_, List.mem_cons_self, rfl⟩)
      unfold ThemeManager.getCurrentTheme
      show (Option.or _ ((loadUserThemes themesDir directory themes).lookup
        "default-dark")).isSome
      rw [hdefault]
      cases (loadUserThemes themesDir directory themes).lookup
        currentThemeID <;> rfl
    · intro theme
      constructor
      · intro hmem
        refine ⟨isBuiltin_of_mem hmem, theme.id, ?_⟩
        show (loadUserThemes themesDir directory themes).lookup theme.id = _
        rw [lookup_loadUserThemes, (hlast _ _).mpr ⟨hmem, rfl⟩]
        rfl
      · rintro ⟨huser, id, hlookup⟩
        replace hlookup : (loadUserThemes themesDir directory themes).lookup id
          = some theme := hlookup
        rw [lookup_loadUserThemes] at hlookup
        cases hfind : FinMap.lastBy Theme.id id
            (themesOf themesDir directory) with
        | some last =>
          rw [hfind, Option.some_or] at hlookup
          obtain rfl := Option.some.inj hlookup
          exact ((hlast _ _).mp hfind).1
        | none =>
          rw [hfind, Option.none_or] at hlookup
          rw [builtin_of_mem ((h _ _).mp hlookup).1] at huser
          cases huser

-- ======== the runs

/-- What is known of the manager as long as nothing has clashed. -/
structure Inv (look : String → β) (themesDir : String)
    (m : ThemeManager β) : Prop where
  kept : Kept look themesDir m
  filed : Filed look m.themes

theorem Inv.plain {order : List String} (h : Inv look themesDir m)
    (horder : FinMap.Enumerates order m.themes) :
    Plain look (ThemeManager.clearUserThemes order m.themes) := by
  intro id theme
  unfold ThemeManager.clearUserThemes
  rw [FinMap.lookup_eraseAll]
  split
  next hcleared =>
    refine ⟨nofun, fun ⟨hmem, hid⟩ => ?_⟩
    have hany := (List.mem_filter.mp hcleared).2
    rw [← hid, h.kept.builtin theme hmem] at hany
    simp [builtin_of_mem hmem] at hany
  next hkept =>
    constructor
    · intro hlookup
      obtain ⟨hid, hbuiltin⟩ := h.filed id theme hlookup
      refine ⟨hbuiltin ?_, hid⟩
      by_contra huser
      refine hkept (List.mem_filter.mpr ⟨horder.mem_iff.mpr
        (Finmap.mem_of_lookup_eq_some hlookup), ?_⟩)
      rw [hlookup]
      simpa using huser
    · rintro ⟨hmem, rfl⟩
      exact h.kept.builtin theme hmem

/-- What a step leaves is as it should be exactly if the directory it loads
has no clash. -/
theorem Inv.step_iff (h : Inv look themesDir m)
    (hstep : step look themesDir a m = some (m', o)) :
    Filed look m'.themes
      ∧ (Kept look themesDir m' ↔ a.NoClash themesDir) := by
  cases a with
  | startUp directory config =>
    obtain ⟨rfl, -⟩ := Prod.mk.inj (Option.some.inj hstep)
    exact ⟨(plain_loadBuiltinThemes look).filed_load themesDir directory,
      loaded_iff (plain_loadBuiltinThemes look) _⟩
  | setTheme themeID =>
    obtain ⟨rfl, -⟩ := Prod.mk.inj (Option.some.inj hstep)
    unfold ThemeManager.setTheme
    split
    next hsome =>
      refine ⟨h.filed, fun _ => trivial, fun _ =>
        ⟨h.kept.builtin, ?_, h.kept.user⟩⟩
      unfold ThemeManager.getCurrentTheme
      obtain ⟨theme, htheme⟩ := Option.isSome_iff_exists.mp hsome
      show (Option.or (m.themes.lookup themeID) _).isSome
      rw [htheme]
      rfl
    next => exact ⟨h.filed, fun _ => trivial, fun _ => h.kept⟩
  | reloadUserThemes directory order =>
    simp only [Themes.step] at hstep
    split at hstep
    next horder =>
      obtain ⟨rfl, -⟩ := Prod.mk.inj (Option.some.inj hstep)
      exact ⟨(h.plain horder).filed_load themesDir directory,
        loaded_iff (h.plain horder) _⟩
    next => cases hstep

/-- From a start on, whatever is done, the manager is in every state as it
should be exactly if none of the directories that are loaded has a clash. -/
theorem kept_iff_noClash (look : String → β) (themesDir : String)
    (directory : Directory β) (config : Option String)
    (acts : List (Action β)) :
    Visits (step look themesDir) (Kept look themesDir)
        (newThemeManager look themesDir directory config) acts
      ↔ NoClash themesDir directory
        ∧ Along (step look themesDir) (fun _ a => a.NoClash themesDir)
          (newThemeManager look themesDir directory config) acts := by
  have hstart : Kept look themesDir
      (newThemeManager look themesDir directory config)
        ↔ NoClash themesDir directory :=
    loaded_iff (plain_loadBuiltinThemes look) _
  have hrun : NoClash themesDir directory →
      (Visits (step look themesDir) (Kept look themesDir)
          (newThemeManager look themesDir directory config) acts
        ↔ Along (step look themesDir) (fun _ a => a.NoClash themesDir)
          (newThemeManager look themesDir directory config) acts) := by
    intro hclash
    refine Machine.visits_iff_along (I := Inv look themesDir)
      (fun hinv hok hs => ?_) (fun hinv => hinv.kept)
      (fun hinv hs hkept => (hinv.step_iff hs).2.mp hkept)
      ⟨hstart.mpr hclash,
        (plain_loadBuiltinThemes look).filed_load themesDir directory⟩
    exact ⟨(hinv.step_iff hs).2.mpr hok, (hinv.step_iff hs).1⟩
  constructor
  · intro hvisits
    have hclash := hstart.mp hvisits.head
    exact ⟨hclash, (hrun hclash).mp hvisits⟩
  · rintro ⟨hclash, halong⟩
    exact (hrun hclash).mpr halong

/-- A theme file with the ID of the default theme, and a reload when it is
gone again: there is no current theme. -/
theorem default_overwritten :
    ∃ m o, run (step (fun _ => ()) "themes")
        (newThemeManager (fun _ => ()) "themes"
          (some [⟨"mine.json", false,
            .theme ⟨"default-dark", "Mine", (), false, ""⟩⟩]) none)
        [.reloadUserThemes (some []) ["default-dark", "solarized-dark",
          "solarized-midnight", "phosphor", "spring-meadow", "briefcase"]]
          = some (m, o)
      ∧ m.getCurrentTheme = none := by
  refine ⟨_, _, rfl, ?_⟩
  rfl

end Themes
