import Netops.Engine.Plan

/-!
# The profiles that are shipped (`profiles/*.json`)
-/

namespace Netops.Engine
open Netops.Fortios Netops.Exos

/-- an attribute that may be updated, also on a referenced object -/
def Attribute.plain (type : AttributeType) : Attribute where
  type := type
  default := none
  requiredOnCreate := false
  update := true
  unset := false
  referencedUpdate := true
  maxLength := 0
  minimum := 0
  maximum := 0
  forbiddenValues := []
  pattern := none
  undoToDefault := false

/-- an attribute that a new object must have -/
def Attribute.required (a : Attribute) : Attribute := { a with requiredOnCreate := true }

def Attribute.matching (a : Attribute) (words : List String) : Attribute :=
  { a with pattern := some (oneOfTexts words) }

/-- an attribute with a default, to which an undo may return -/
def Attribute.undone (a : Attribute) (default : String) : Attribute :=
  { a with default := some default.toList, undoToDefault := true }

/-- a profile without any of the optional fields -/
def Profile.plain (platform : Platform) (table : String) (versions : List String) (ops : List Op)
    (keyPattern : Text → Bool) (attributes : List (String × Attribute)) : Profile where
  platform := platform
  table := table.toList
  versions := versions.map String.toList
  ops := ops
  keyPattern := keyPattern
  protectedKeys := []
  attributes := attributes.map fun x => (x.1.toList, x.2)
  fixed := []
  volatile := []
  reservedValues := []
  implicitKeys := false
  undoOps := []
  exactVersions := false
  tableScopedKey := false
  createValues := []
  isolatedUpdate := []
  valueRequires := []

end Netops.Engine
