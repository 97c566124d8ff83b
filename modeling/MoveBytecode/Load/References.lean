import MoveBytecode.Module.Basic

/-!
# References between records

Before any code is read, every number by which one record refers to another has to be the number of
an entry. `Module.references` lists these references in the order in which they are checked, and the
first that leads nowhere is the one that is reported.
-/

namespace MoveBytecode

/-- A reference: `holder` names the record that holds it. -/
inductive Reference where
  /-- The number of an entry of a pool of `size` entries. -/
  | entry (holder pool : String) (index : Int) (size : Nat)
  /-- The run of field definitions of a struct, of `available` in all. -/
  | fields (structDef first count available : Nat)
  deriving DecidableEq, Repr

namespace Reference

/-- Whether a reference leads somewhere. -/
def resolves : Reference → Bool
  | .entry _ _ index size => 0 ≤ index && index < size
  | .fields _ first count available => first + count ≤ available

/-- What is reported of a reference that leads nowhere. -/
def fault : Reference → Fault
  | .entry holder pool index size => .unresolvedEntry holder pool index size
  | .fields structDef first count available =>
    .fieldsBeyondTable structDef first (first + count) available

/-- A reference into a pool. -/
def into {α : Type} (pool : Pool α) (holder : String) (index : Int) : Reference :=
  .entry holder pool.name index pool.size

end Reference

namespace Module

open Reference

/-- The references of the module handles. -/
def moduleReferences (m : Module) : List Reference :=
  m.moduleHandles.toList.flatMap fun e =>
    let holder := s!"Module handle {e.index}"
    [into m.addresses holder e.record.address, into m.strings holder e.record.name]

/-- The references of the struct handles. -/
def structReferences (m : Module) : List Reference :=
  m.structHandles.toList.flatMap fun e =>
    let holder := s!"Struct handle {e.index}"
    [into m.moduleHandles holder e.record.owner, into m.strings holder e.record.name]

/-- The references of the function handles. -/
def functionReferences (m : Module) : List Reference :=
  m.functionHandles.toList.flatMap fun e =>
    let holder := s!"Function handle {e.index}"
    [into m.moduleHandles holder e.record.owner, into m.strings holder e.record.name,
      into m.functionSignatures holder e.record.signature]

/-- The references of the struct definitions. -/
def structDefReferences (m : Module) : List Reference :=
  m.structDefs.toList.flatMap fun e =>
    [into m.structHandles s!"Struct definition {e.index}" e.record.handle,
      .fields e.index e.record.firstField e.record.fieldCount m.fieldDefs.size]

/-- The references of the field definitions. -/
def fieldDefReferences (m : Module) : List Reference :=
  m.fieldDefs.toList.flatMap fun e =>
    let holder := s!"Field definition {e.index}"
    [into m.structHandles holder e.record.owner, into m.strings holder e.record.name,
      into m.typeSignatures holder e.record.type]

/-- The tokens of all signatures: of fields, of functions and of locals. -/
def signatureTokens (m : Module) : List Token :=
  m.typeSignatures.toList.map (·.record) ++
    (m.functionSignatures.toList.flatMap (fun e => e.record.returns ++ e.record.params) ++
      m.localSignatures.toList.flatMap (·.record))

/-- The references of the signatures. -/
def tokenReferences (m : Module) : List Reference :=
  m.signatureTokens.flatMap fun token =>
    token.handles.map (into m.structHandles "Signature token")

/-- The references of all records without code. -/
def references (m : Module) : List Reference :=
  m.moduleReferences ++ (m.structReferences ++ (m.functionReferences ++
    (m.structDefReferences ++ (m.fieldDefReferences ++ m.tokenReferences))))

/-- Refuses a module with a reference that leads nowhere. -/
def checkReferences (m : Module) : Except Fault Unit :=
  match m.references.find? (!·.resolves) with
  | some reference => .error reference.fault
  | none => .ok ()

end Module

end MoveBytecode
