import NatSpec.Abi.Depth
import NatSpec.Contract.Doc
import NatSpec.FileTree.Path
import NatSpec.Text.Blank

/-!
The Markdown page of a contract: its title and texts, its special functions, and its members in
three groups. A section stands only where there is something to show, and texts are passed through
unchanged.
-/

namespace NatSpec

def pagesDirectory : String := "contracts"

def ContractDoc.pagePath (doc : ContractDoc) : Except Fault Path :=
  match doc.source with
  | .str source => .ok (Path.ofString pagesDirectory / source / (doc.name.display ++ ".md"))
  | _ => .error .wrongKind

namespace Page

def namedTexts (heading : String) (v : Json) : List String :=
  match v with
  | .obj [] => []
  | .obj fields =>
    ["**" ++ heading ++ "**", ""]
      ++ fields.map (fun (name, text) => "- `" ++ name.display ++ "`: " ++ text.display) ++ [""]
  | _ => []

/-- The lines that show a text, if it is present. -/
def textLines (v : Json) : List String :=
  if v.truthy then [v.display, ""] else []

def memberLines (signature : String) (record : Fields) : List String :=
  ["### `" ++ signature ++ "`", ""]
    ++ textLines (Json.field record "notice")
    ++ textLines (Json.field record "details")
    ++ namedTexts "Parameters" (Json.field record "params")
    ++ namedTexts "Returns" (Json.field record "returns")

def member (signature : String) (record : Fields) : String :=
  "\n".intercalate (memberLines signature record) ++ "\n"

def titleSection (doc : ContractDoc) : String :=
  "# " ++ doc.name.display ++ "\n\n`" ++ doc.source.display ++ "`\n"
    ++ (if doc.title.truthy then "\n**" ++ doc.title.display ++ "**\n" else "")
    ++ (if doc.author.truthy then "\n*Author: " ++ doc.author.display ++ "*\n" else "")

def overviewSection (doc : ContractDoc) : Except Fault String := do
  let parts := [doc.notice, doc.details].filter Json.truthy
  let texts ← Abi.texts parts
  .ok (if texts.isEmpty then "" else "\n\n".intercalate texts ++ "\n")

def specialSection (heading : String) (record : Json) : Except Fault String := do
  if record.isNull then .ok ""
  else
    let fields ← Abi.fieldsOf record
    Abi.checkDepth (Abi.inputsOf record)
    let signature ← Abi.signature fields
    .ok ("## " ++ heading ++ "\n\n" ++ member signature fields)

def groupSection (heading : String) (group : Json) : Except Fault String := do
  if group.truthy then
    let records ← Abi.fieldsOf group
    let members ← records.mapM fun (signature, record) => do
      .ok (member signature.display (← Abi.fieldsOf record))
    .ok ("## " ++ heading ++ "\n\n" ++ String.join members)
  else .ok ""

def sections (doc : ContractDoc) : Except Fault (List String) := do
  let overview ← overviewSection doc
  let constructor ← specialSection "Constructor" doc.constructor
  let fallback ← specialSection "Fallback" doc.fallback
  let receive ← specialSection "Receive" doc.receive
  let methods ← groupSection "Methods" doc.methods
  let events ← groupSection "Events" doc.events
  let stateVariables ← groupSection "State Variables" doc.stateVariables
  .ok [titleSection doc, overview, constructor, fallback, receive, methods, events, stateVariables]

def render (doc : ContractDoc) : Except Fault String := do
  let shown := (← sections doc).filter fun text => !Text.isAllBlank text
  .ok ("\n".intercalate shown)

end Page

end NatSpec
