import Mathlib.Data.List.Infix
import Workbay.Manifest.Validate

/-!
# Work items

The items that the work-graph compiler takes, with the checks that every item passes before
anything is compiled.
-/

namespace Workbay.Compiler

open Workbay.Manifest

/-- `VERIFY_NAMESPACE` -/
def verifyNamespace : String := "__verify__"

/-- `part in text` -/
def containsText (text part : String) : Bool := decide (part.toList <:+: text.toList)

/-- The work items by their ids, in the order in which they were given. -/
abbrev Items := Dict String Fields

/-- The truth of a value. -/
def truthy : Json → Bool
  | .null => false
  | .bool b => b
  | .int i => i ≠ 0
  | .float _ digits _ => digits ≠ 0
  | .str s => s ≠ ""
  | .arr xs => xs ≠ []
  | .obj entries => entries ≠ []

/-- `item.get(key) or []` -/
def orEmpty (item : Fields) (key : String) : Json :=
  match item.get? key with
  | some value => if truthy value then value else .arr []
  | none => .arr []

/-- A refusal that names a work item. -/
def itemRefusal (template : String) (item : Option Json) : Refusal :=
  { template := template, args := [.value item] }

/-- One path of an item. -/
def itemRoot (itemId : Option Json) : Json → Except Refusal String
  | .str raw =>
    if Text.strip raw = "" then .error (itemRefusal "work item %s has empty file_path" itemId)
    else match normalizeOwnedPath raw with
      | .ok root => .ok root
      | .error _ => .error (itemRefusal "work item %s file_path refused" itemId)
  | _ => .error (itemRefusal "work item %s has empty file_path" itemId)

/-- `_item_roots` -/
def itemRoots (item : Fields) : Except Refusal (List String) :=
  let itemId := item.get? "id"
  match orEmpty item "file_paths" with
  | .arr raws =>
    match readAll (itemRoot itemId) raws with
    | .error refusal => .error refusal
    | .ok [] => .error (itemRefusal ("work item %s must declare non-empty file_paths (empty " ++
        "owned_paths skips lane scope enforcement; only verify twins may own the empty set)") itemId)
    | .ok roots => .ok roots
  | _ => .error (itemRefusal "work item %s file_paths must be a list" itemId)

/-- `_refuse_reserved_ids`, of one item. An id that is no string is refused afterwards. -/
def refuseReservedId (item : Fields) : Check :=
  match item.get? "id" with
  | some (.str itemId) => require (containsText itemId verifyNamespace = false)
      { template := "work-item id %s contains reserved namespace %s"
        args := [.text itemId, .text verifyNamespace] }
  | _ => .ok ()

/-- The fields that only an operator item carries. -/
def operatorFields : List String := ["depends_on", "produces", "consumes", "fuse_with"]

/-- The kinds of work items. -/
def kinds : List Json := [.str "finding", .str "operator"]

/-- The checks of one item besides its id. -/
def checkItem (itemId : String) (item : Fields) : Check := do
  require ((item.get? "kind").any (· ∈ kinds))
    { template := "work item %s kind must be 'finding' or 'operator'", args := [.text itemId] }
  checkAll (fun field => require (item.get? "kind" ≠ some (.str "finding") ∨
      (item.get? field).all (· ∈ [Json.null, .arr []]))
    { template := "finding work item %s must not carry operator field %s"
      args := [.text itemId, .text field] }) operatorFields
  match itemRoots item with
  | .error refusal => .error refusal
  | .ok _ => .ok ()

/-- `_validate_work_items`: the items by their ids. -/
def validateWorkItems : List Fields → Items → Except Refusal Items
  | [], byId => .ok byId
  | item :: items, byId =>
    match item.get? "id" with
    | some (.str itemId) =>
      if Text.strip itemId = "" then .error { template := "work item missing non-empty id" }
      else if (byId.get? itemId).isSome then
        .error { template := "duplicate work-item id %s", args := [.text itemId] }
      else match checkItem itemId item with
        | .error refusal => .error refusal
        | .ok _ => validateWorkItems items (byId.set itemId item)
    | _ => .error { template := "work item missing non-empty id" }

/-! ## Reading the items -/

/-- `sorted(by_id)` -/
def sortedIds (byId : Items) : List String := (byId.map Prod.fst).insertionSort (· ≤ ·)

/-- `by_id[item_id]` -/
def itemOf (byId : Items) (itemId : String) : Fields := byId.getD itemId []

/-- The roots of an item that was accepted. -/
def rootsOfItem (byId : Items) (itemId : String) : List String :=
  (itemRoots (itemOf byId itemId)).toOption.getD []

/-- The item has the kind `operator`. -/
def isOperator (byId : Items) (itemId : String) : Bool :=
  Dict.get? (itemOf byId itemId) "kind" = some (.str "operator")

/-- Read a list field of the operator items, in the order of their ids. -/
def readOperators {β : Type} (byId : Items) (field : String)
    (read : String → Json → Except Refusal β) : Except Refusal (List (List β)) :=
  readAll (fun itemId =>
    if isOperator byId itemId then
      match orEmpty (itemOf byId itemId) field with
      | .arr entries => readAll (read itemId) entries
      | _ => .error
          { template := "operator %s %s must be a list", args := [.text itemId, .text field] }
    else .ok []) (sortedIds byId)

end Workbay.Compiler
