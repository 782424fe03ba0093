/-
# Merging of JSON values

Two values of one document are merged field by field. Objects are merged member by member. Arrays whose
items are objects with ids are merged item by item. All else is decided as a whole in favour of the newer
write, and so are two values of different shapes.
-/
import DocMesh.Json.Printer

namespace DocMesh.Json

/-! ## Ids of items -/

/-- The text of a scalar that may serve as an id. -/
def idText? : Json → Option String
  | string s => some s
  | number n => some n.text
  | bool b => some (if b then "true" else "false")
  | null | array _ | object _ => none

/-- The id of an item: its member `id`, or `_id` if there is no such member. -/
def itemId? (item : Json) : Option String :=
  match item.member? "id" with
  | some v => v.idText?
  | none => (item.member? "_id").bind idText?

/-- The ids of the items, if each of them has one and no two have the same. -/
def itemIds? (items : List Json) : Option (List String) :=
  match items.mapM itemId? with
  | some ids => if ids.Nodup then some ids else none
  | none => none

/-- The item with the given id. -/
def findItem? (id : String) (items : List Json) : Option Json :=
  items.find? fun item => item.itemId? == some id

/-! ## Merging -/

mutual

/-- The merged value. `remoteNewer` says which of the two writes is the newer one. -/
def merge (remoteNewer : Bool) : (loc rem : Json) → Json
  | object loc, object rem =>
    object (rem.foldl (fun ms m => if (loc.lookup m.1).isSome then ms else place Prod.fst m ms)
      (mergeMembers remoteNewer loc rem))
  | array loc, array rem =>
    match itemIds? loc, itemIds? rem with
    | some locIds, some _ =>
      array (mergeItems remoteNewer loc rem ++
        rem.filter fun item => !(item.itemId?.any locIds.contains))
    | _, _ => if remoteNewer then array rem else array loc
  | loc, rem => if loc.sameScalar rem then loc else if remoteNewer then rem else loc

/-- The members of the local object, each merged with the remote member of its name. -/
def mergeMembers (remoteNewer : Bool) :
    (loc rem : List (String × Json)) → List (String × Json)
  | [], _ => []
  | (name, v) :: ms, rem =>
    (match rem.lookup name with
      | some w => (name, merge remoteNewer v w)
      | none => (name, v)) :: mergeMembers remoteNewer ms rem

/-- The items of the local array, each merged with the remote item of its id. -/
def mergeItems (remoteNewer : Bool) : (loc rem : List Json) → List Json
  | [], _ => []
  | v :: vs, rem =>
    (match v.itemId?.bind (findItem? · rem) with
      | some w => merge remoteNewer v w
      | none => v) :: mergeItems remoteNewer vs rem

end

end DocMesh.Json
