import ScriptEngine.Value.Heap

/-!
# Inherited members

A record inherits from the records that its member `__super__` names: one
record, or the records among the items of an array, from left to right. A
member is looked up depth first, own members before inherited ones. Paths of
more than 32 links are not followed, so looking up ends even where records
inherit from themselves.
-/

set_option autoImplicit false

namespace ScriptEngine.Heap

def superMember : String := "__super__"

def inheritanceLimit : Nat := 32

/-- The value of a member, looked up along paths of at most `links` links. -/
def lookupWithin (heap : Heap) (name : String) : Nat → RecordRef → Option Value
  | links, reference =>
      let record := heap.record reference
      match record.get? name with
      | some value => some value
      | none =>
          match links, record.get? superMember with
          | links + 1, some (.record parent) => heap.lookupWithin name links parent
          | links + 1, some (.array parents) =>
              (heap.array parents).toList.findSome? fun
                | .record parent => heap.lookupWithin name links parent
                | _ => none
          | _, _ => none

/-- The value of a member, its own or an inherited one. -/
def lookup (heap : Heap) (reference : RecordRef) (name : String) : Option Value :=
  heap.lookupWithin name inheritanceLimit reference

def lookupChain (heap : Heap) (chain : List RecordRef) (name : String) : Option Value :=
  chain.findSome? fun reference => heap.lookup reference name

end ScriptEngine.Heap
