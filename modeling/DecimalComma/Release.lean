import DecimalComma.Toml.Reader

/-! The release that a checkout's manifest names, or else the one that is installed. -/
namespace DecimalComma.Release

/-- The name under which the program is distributed. -/
def distribution : String := "commacalc"

/-- The release of this library. -/
def current : String := "0.3.0"

/-- The answer where nothing is known. -/
def unknown : String := "0.0.0"

/-- Why a manifest cannot be used. -/
inductive Fault where
  | malformed
  | projectNotTable
deriving DecidableEq, Repr

/-- Every line break as one character. -/
def joinBreaks : List Char → List Char
  | '\r' :: '\n' :: s => '\n' :: joinBreaks s
  | '\r' :: s => '\n' :: joinBreaks s
  | c :: s => c :: joinBreaks s
  | [] => []

/-- The release in a manifest, if the manifest is that of this program and names one. -/
def ofManifest (text : String) : Except Fault (Option String) :=
  match Toml.read? (joinBreaks text.toList) with
  | none => .error .malformed
  | some root =>
    match (root.lookup "project").getD (.table []) with
    | .table project =>
      match project.lookup "name", project.lookup "version" with
      | some (.text name), some (.text version) =>
        .ok (if name = distribution then some version else none)
      | _, _ => .ok none
    | _ => .error .projectNotTable

/-- The release to report. -/
def version (manifest installed : Option String) : Except Fault String := do
  let found ← match manifest with
    | none => .ok none
    | some text => ofManifest text
  return found.getD (installed.getD unknown)

end DecimalComma.Release
