import NatSpec.Bundle.Markup
import NatSpec.Bundle.Page
import NatSpec.Json.Writer
import NatSpec.Version

/-!
The index page of a bundle: one section a contract, with its texts and a list of its members, and
the data of the whole bundle in a script. Members are listed by group: methods, events, state
variables.
-/

namespace NatSpec

/-- The contracts in increasing order of their names. -/
def Docs.sorted (docs : Docs) : Docs :=
  docs.mergeSort fun a b => a.1 ≤ b.1

/-- The records of a bundle: all contracts under their names, in increasing order. -/
def Docs.data (docs : Docs) : Json :=
  Docs.toJson docs.sorted

namespace Index

/-- What stands in front of the first contract. -/
def opening : String :=
  "\n".intercalate [
    "<!DOCTYPE html>",
    "<html lang=\"en\">",
    "<head>",
    "  <meta charset=\"utf-8\">",
    "  <meta name=\"viewport\" content=\"width=device-width, initial-scale=1\">",
    "  <title>Contract Documentation</title>",
    "  <style>",
    "    body \x7b font-family: system-ui, sans-serif; max-width: 60rem; margin: 2rem auto; "
      ++ "padding: 0 1rem; color: #222; \x7d",
    "    h2 \x7b border-bottom: 1px solid #ddd; padding-bottom: .25rem; \x7d",
    "    code \x7b background: #f4f4f4; padding: 0 .25rem; \x7d",
    "    .source \x7b color: #666; font-size: .9rem; \x7d",
    "    .notice \x7b margin: .25rem 0 .75rem; \x7d",
    "    ul.members \x7b list-style: none; padding-left: 0; \x7d",
    "    ul.members li \x7b margin: .25rem 0; \x7d",
    "    .kind \x7b display: inline-block; min-width: 7rem; color: #888; "
      ++ "font-size: .85rem; \x7d",
    "  </style>",
    "</head>",
    "<body>",
    "  <h1>Contract Documentation</h1>",
    ""]

/-- A text between two pieces of markup, if it is present. -/
def shownText (before : String) (v : Json) (after : String) : List Piece :=
  if v.truthy then [.markup before, .text v.display, .markup after] else []

/-- The remark behind a member: its notice, or else its details. -/
def remark (record : Json) : List Piece :=
  match record with
  | .obj fields =>
    shownText " &mdash; " ((Json.field fields "notice").orElse (Json.field fields "details")) ""
  | _ => []

def memberItem (kind signature : String) (record : Json) : List Piece :=
  [.markup ("      <li>\n        <span class=\"kind\">" ++ kind ++ "</span><code>"),
    .text signature, .markup "</code>\n"]
    ++ remark record ++ [.markup "      </li>\n"]

def groupItems (kind : String) (group : Json) : Except Fault (List Piece) :=
  match group.orElse (.obj []) with
  | .obj records =>
    .ok (records.flatMap fun (signature, record) => memberItem kind signature.display record)
  | _ => .error .undefinedName

/-- The heading of a contract, with a link to its page if there is one. -/
def heading (doc : ContractDoc) (page : Option Path) : List Piece :=
  match page with
  | some path =>
    [.markup "<a href=\"", .text path.toString, .markup "\">", .text doc.name.display,
      .markup "</a>"]
  | none => [.text doc.name.display]

def contractSection (name : String) (doc : ContractDoc) (page : Option Path) :
    Except Fault (List Piece) := do
  let methods ← groupItems "method" doc.methods
  let events ← groupItems "event" doc.events
  let stateVariables ← groupItems "state variable" doc.stateVariables
  .ok ([.markup "  <section id=\"", .text name, .markup "\">\n    <h2>\n"]
    ++ heading doc page
    ++ [.markup "    </h2>\n    <div class=\"source\">", .text doc.source.display,
      .markup "</div>\n"]
    ++ shownText "<p><strong>" doc.title "</strong></p>"
    ++ shownText "<p class=\"notice\">" doc.notice "</p>"
    ++ shownText "<p class=\"notice\">" doc.details "</p>"
    ++ [.markup "    <ul class=\"members\">\n"]
    ++ methods ++ events ++ stateVariables
    ++ [.markup "    </ul>\n  </section>\n"])

/-- The pages to which the index links: one a contract, or none if pages are left out. -/
def linkedPage (pages : Bool) (doc : ContractDoc) : Except Fault (Option Path) := do
  if pages then .ok (some (← doc.pagePath)) else .ok none

def pieces (docs : Docs) (pages : Bool) : Except Fault (List Piece) := do
  let entries ← docs.sorted.mapM fun (name, doc) => do
    .ok (name, doc, ← linkedPage pages doc)
  let sections ← entries.mapM fun (name, doc, page) => contractSection name doc page
  .ok ([.markup opening]
    ++ (if docs.isEmpty then [.markup "  <p>No contracts found.</p>\n"] else [])
    ++ sections.flatten
    ++ [.markup ("  <footer class=\"source\">Generated by " ++ programName ++ " "
        ++ programVersion ++ "</footer>\n"
        ++ "  <script id=\"docgen-data\" type=\"application/json\">"),
      .data docs.data.text, .markup "</script>\n</body>\n</html>"])

def render (docs : Docs) (pages : Bool) : Except Fault String := do
  .ok (Markup.render (← pieces docs pages))

end Index

end NatSpec
