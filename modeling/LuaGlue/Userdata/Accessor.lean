import LuaGlue.Context

/-!
# Accessors

Which fields of a bound struct a script can reach, under which keys and how. A field is listed under
its own name; directly after a flattened field come the members of its struct that no field or
earlier member is named like. Variadic callbacks are left out.

The count of an owned buffer is read-only, since only assigning the buffer may change it, and a
callback is write-only.
-/

set_option autoImplicit false

namespace LuaGlue

/-- What reading and writing a field takes. -/
inductive Access where
  | value
  | callback
  /-- The number of elements of an owned buffer, with the buffer's field. -/
  | ownedCount (pointer : String)
  /-- An owned buffer, its number among the struct's buffers, and the field that counts its
  elements. -/
  | ownedBuffer (bit : Nat) (countField countType elem : String)
  deriving DecidableEq, Repr

structure Accessor where
  key : String
  /-- The spelling of the field's type. -/
  type : String
  /-- The way to the field from the struct, such as `base.user_data`. -/
  path : String
  access : Access
  deriving DecidableEq, Repr

namespace Accessor

def readable (a : Accessor) : Bool := a.access != .callback

def writable (a : Accessor) : Bool :=
  match a.access with
  | .ownedCount _ => false
  | _ => true

def isOwnedBuffer (a : Accessor) : Bool :=
  match a.access with
  | .ownedBuffer .. => true
  | _ => false

end Accessor

/-- An accessor for a field under its own name. -/
def Field.accessor (f : Field) (access : Access) : Accessor := ⟨f.name, f.type, f.name, access⟩

/-- The owned buffer a field is the pointer of, with its number. -/
def StructDecl.bufferAt? (s : StructDecl) (field : String) : Option (Nat × OwnedBuffer) :=
  match s.ownedBuffers.findIdx? (·.pointerField == field), s.ownedBuffer? field with
  | some bit, some buffer => some (bit, buffer)
  | _, _ => none

/-- How an owned buffer is accessed. Its field must be a pointer, and its count a field. -/
def ownedAccess (s : StructDecl) (f : Field) (bit : Nat) (buffer : OwnedBuffer) :
    Except Fault Access :=
  match pointeeType? f.type, s.field? buffer.countField with
  | some elem, some count => .ok (.ownedBuffer bit buffer.countField count.type elem)
  | _, _ => .error (.ownedBuffer s.name f.name f.type)

/-- The struct of a field that is a struct of this interface. -/
def nestedStruct? (ctx : Context) (f : Field) : Classifying (Option StructDecl) := do
  match ← ctx.classify f.type with
  | .structValue name _ => return ctx.interface.struct? name
  | _ => return none

/-- Accessors for members of a flattened field that are no callbacks and belong to no owned buffer,
unless their name is in `taken`; with the names taken then. -/
def flattenedMembers (ctx : Context) (outer : String) (nested : StructDecl) (taken : List String) :
    List Field → Classifying (List Accessor × List String)
  | [] => pure ([], taken)
  | f :: rest => do
    let category ← ctx.classify f.type
    if category.isCallback || (nested.ownedBuffer? f.name).isSome ||
        (nested.ownedCount? f.name).isSome || taken.contains f.name then
      flattenedMembers ctx outer nested taken rest
    else do
      let (accessors, taken') ← flattenedMembers ctx outer nested (f.name :: taken) rest
      return (⟨f.name, f.type, outer ++ "." ++ f.name, .value⟩ :: accessors, taken')

/-- Accessors for one field, and the names taken then. -/
def fieldAccessors (ctx : Context) (s : StructDecl) (taken : List String) (f : Field) :
    Classifying (Except Fault (List Accessor × List String)) := do
  let category ← ctx.classify f.type
  if category.isCallback then
    return .ok (if category.isBindable then [f.accessor .callback] else [], taken)
  match s.bufferAt? f.name with
  | some (bit, buffer) =>
    return (ownedAccess s f bit buffer).map fun access => ([f.accessor access], taken)
  | none =>
    match s.ownedCount? f.name with
    | some buffer => return .ok ([f.accessor (.ownedCount buffer.pointerField)], taken)
    | none =>
      if (ctx.manifest.flattenedFields s.name).contains f.name then
        match ← nestedStruct? ctx f with
        | some nested => do
          let (members, taken') ← flattenedMembers ctx f.name nested taken nested.fields
          return .ok (f.accessor .value :: members, taken')
        | none => return .ok ([f.accessor .value], taken)
      else return .ok ([f.accessor .value], taken)

/-- Accessors for some fields in order. -/
def accessorsFrom (ctx : Context) (s : StructDecl) (taken : List String) :
    List Field → Classifying (Except Fault (List Accessor))
  | [] => pure (.ok [])
  | f :: rest => do
    match ← fieldAccessors ctx s taken f with
    | .error fault => return .error fault
    | .ok (accessors, taken') =>
      return (← accessorsFrom ctx s taken' rest).map (accessors ++ ·)

/-- The accessors of a struct. -/
def accessors (ctx : Context) (s : StructDecl) : Classifying (Except Fault (List Accessor)) :=
  accessorsFrom ctx s (s.fields.map (·.name)) s.fields

end LuaGlue
