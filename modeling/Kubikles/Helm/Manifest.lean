/-
The resources of a release (`manifest.go`).

A manifest is scanned for documents, and each is decoded into the few
fields that are wanted. The YAML parser is given. The scanner has a buffer
of 64 KiB; an error of it ends the loop, and nobody asks for it.
-/
import Kubikles.Lib.Tokens
import Kubikles.Lib.Words

namespace Helm

structure ResourceReference where
  kind : Text
  name : Text
  ns : Text
  deriving DecidableEq

/-- What a document is decoded into. -/
structure ManifestObject where
  kind : Text
  name : Text
  ns : Text

/-- `yaml.Unmarshal`; there is nothing where it is an error. -/
abbrev Yaml := Text → Option ManifestObject

/-- `bufio.MaxScanTokenSize`. -/
def maxScanTokenSize : Nat := 64 * 1024

/-- `---`. -/
def separator : Text := Text.ofString "---"

def splitYAMLDocuments : Tokens.SplitFunc := fun data atEOF =>
  if atEOF ∧ data = [] then (0, none)
  else
    let sep := Text.newline :: separator
    match Tokens.indexOf sep data with
    | some i => (i + sep.length, some (data.take i))
    | none => if atEOF then (data.length, some data) else (0, none)

/-- The reference to the object of a document, if it has a kind and a
name. -/
def ManifestObject.reference (defaultNamespace : Text)
    (obj : ManifestObject) : Option ResourceReference :=
  if obj.kind = [] ∨ obj.name = [] then none
  else
    some {
      kind := obj.kind
      name := obj.name
      ns := if obj.ns = [] then defaultNamespace else obj.ns }

/-- The loop over the documents, for one of them. -/
def tokenReference (yaml : Yaml) (defaultNamespace token : Text) :
    Option ResourceReference :=
  let doc := Text.trimSpace token
  if doc = [] ∨ doc = separator then none
  else
    match yaml doc with
    | none => none
    | some obj => obj.reference defaultNamespace

def parseManifestResources (yaml : Yaml)
    (manifest defaultNamespace : Text) : List ResourceReference :=
  (Tokens.scanAll maxScanTokenSize splitYAMLDocuments manifest).filterMap
    (tokenReference yaml defaultNamespace)

end Helm
