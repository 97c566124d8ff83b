import MoveBytecode.Proofs.Flow.Depths
import MoveBytecode.Proofs.Format.Assembly
import MoveBytecode.Proofs.Loading.Mapping

/-!
# Looking up addresses

Both lookups by address search from the front and take the first match. There is never a second one:
the bodies are mapped one behind the other, so that an address is within at most one of them, and the
offsets of a body increase (`Module.Locates`). An empty body has no address, also where it shares its
start with the body behind it.
-/

namespace MoveBytecode

/-- A search finds exactly the match of a list in which no two positions match. -/
theorem find?_eq_some_iff_of_unique {α : Type} {l : List α} {p : α → Bool} {a : α}
    (hunique : ∀ (k n : Nat) a b, l[k]? = some a → l[n]? = some b → p a = true → p b = true → k = n) :
    l.find? p = some a ↔ a ∈ l ∧ p a = true := by
  refine ⟨fun hfind => ⟨List.mem_of_find?_eq_some hfind, List.find?_some hfind⟩, ?_⟩
  rintro ⟨hmem, ha⟩
  obtain ⟨k, hk⟩ := List.mem_iff_getElem?.mp hmem
  cases hfind : l.find? p with
  | none => exact absurd ha (List.find?_eq_none.mp hfind a hmem)
  | some b =>
    obtain ⟨n, hn⟩ := List.mem_iff_getElem?.mp (List.mem_of_find?_eq_some hfind)
    obtain rfl := hunique n k b a hn hk (List.find?_some hfind) ha
    exact hn.symm.trans hk

namespace Body

variable {f : Frame} {data : Bytes} {base : Nat} {is : List Instruction}

/-- An instruction starts within the body. -/
theorem Scanned.offset_lt_totalSize (h : Scanned f data base is) {n : Nat} {i : Instruction}
    (hi : is[n]? = some i) : i.offset < Instruction.totalSize is := by
  have hbehind := (h.offset_eq hi).2
  have hsize : 0 < i.size := (h.listed_take hi).nonempty
  have hle : Instruction.totalSize (is.take (n + 1)) ≤ Instruction.totalSize is := by
    have hlt := (List.getElem?_eq_some_iff.mp hi).1
    calc Instruction.totalSize (is.take (n + 1))
      _ ≤ Instruction.totalSize (is.take is.length) := totalSize_take_le (Nat.succ_le_of_lt hlt)
      _ = Instruction.totalSize is := by rw [List.take_length]
  omega

/-- The search for an offset finds the instruction that starts there. -/
theorem Scanned.find?_offset_eq_some_iff (h : Scanned f data base is) {offset : Int}
    {i : Instruction} :
    is.find? (fun i => (i.offset : Int) == offset) = some i ↔ i ∈ is ∧ (i.offset : Int) = offset := by
  rw [find?_eq_some_iff_of_unique, beq_iff_eq]
  intro k n i j hi hj hoffset hoffset'
  rw [beq_iff_eq] at hoffset hoffset'
  exact (h.offset_eq_iff hi hj).mp (by omega)

end Body

namespace Module

/-- A function covers the addresses from its first one up to the one behind its last. -/
theorem covers_iff {f : Entry FunctionDef} {address : Int} :
    covers f address = true ↔
      f.mapping.start ≤ address ∧ address < f.mapping.start + f.mapping.size := by
  rw [covers, Extent.stop, Bool.and_eq_true, decide_eq_true_iff, decide_eq_true_iff]

/-- `address` is where instruction number `n` of function number `k`, the instruction `i` of the
function `f`, starts. -/
structure StartsAt (m : Module) (address : Int) (k n : Nat) (f : Entry FunctionDef)
    (i : Instruction) : Prop where
  function : m.internalFunctions[k]? = some f
  instruction : f.record.code.instructions[n]? = some i
  address_eq : address = f.mapping.start + i.offset

/-- What the lookups of a module say about an address. -/
structure Locates (m : Module) (address : Int) : Prop where
  /-- The function that is found is one that has the address among its addresses. -/
  function_iff : ∀ f, m.functionAt? address = some f ↔ f ∈ m.internalFunctions ∧
    f.mapping.start ≤ address ∧ address < f.mapping.start + f.mapping.size
  /-- There is one such function at most. -/
  function_unique : ∀ (k l : Nat) f g, m.internalFunctions[k]? = some f →
    m.internalFunctions[l]? = some g → covers f address = true → covers g address = true → k = l
  /-- The instruction that is found is one that starts at the address. -/
  instruction_iff : ∀ i, m.instructionAt? address = some i ↔ ∃ k n f, m.StartsAt address k n f i
  /-- There is one such instruction at most, in one function at most. -/
  instruction_unique : ∀ k l n o f g i j, m.StartsAt address k n f i → m.StartsAt address l o g j →
    k = l ∧ n = o
  /-- Its function is the one that is found. -/
  function_of_instruction : ∀ k n f i, m.StartsAt address k n f i → m.functionAt? address = some f
  /-- No instruction is found if none starts at the address. -/
  none_iff : m.instructionAt? address = none ↔ ¬∃ k n f i, m.StartsAt address k n f i

section

variable {config : Config} {data : Bytes} {m : Module}

/-- A function ends in front of the later ones. -/
theorem Loads.stop_le_start (h : Loads config data m) {k l : Nat} {f g : Entry FunctionDef}
    (hkl : k < l) (hk : m.internalFunctions[k]? = some f) (hl : m.internalFunctions[l]? = some g) :
    f.mapping.start + f.mapping.size ≤ g.mapping.start := by
  obtain ⟨hklt, rfl⟩ := List.getElem?_eq_some_iff.mp hk
  obtain ⟨hllt, rfl⟩ := List.getElem?_eq_some_iff.mp hl
  exact List.pairwise_iff_getElem.mp h.pairwise_internalFunctions k l hklt hllt hkl

/-- An address is within the addresses of one function at most. -/
theorem Loads.covers_unique (h : Loads config data m) {k l : Nat} {f g : Entry FunctionDef}
    (hk : m.internalFunctions[k]? = some f) (hl : m.internalFunctions[l]? = some g) {address : Int}
    (hf : covers f address = true) (hg : covers g address = true) : k = l := by
  rw [covers_iff] at hf hg
  rcases Nat.lt_trichotomy k l with hlt | heq | hgt
  · have := h.stop_le_start hlt hk hl
    omega
  · exact heq
  · have := h.stop_le_start hgt hl hk
    omega

/-- The function at an address is the one that covers it. -/
theorem Loads.functionAt?_eq_some_iff (h : Loads config data m) {address : Int}
    {f : Entry FunctionDef} : m.functionAt? address = some f ↔
      f ∈ m.internalFunctions ∧ covers f address = true :=
  find?_eq_some_iff_of_unique fun _ _ _ _ hk hl => h.covers_unique hk hl

/-- The bodies of a loaded module are as a read left them. -/
theorem Loads.exists_scanned (h : Loads config data m) {f : Entry FunctionDef}
    (hf : f ∈ m.internalFunctions) :
    ∃ frame : Body.Frame, Body.Scanned frame data f.record.code.start f.record.code.instructions := by
  obtain ⟨hdecoded, rfl⟩ := h.decoded
  obtain ⟨frame, -, -, hsound⟩ := (hdecoded.entries f (mem_functionEntries hf)).body.exists_frame
  exact ⟨frame, hsound.scanned⟩

/-- The start of an instruction is one of the addresses of its function. -/
theorem Loads.covers_of_startsAt (h : Loads config data m) {address : Int} {k n : Nat}
    {f : Entry FunctionDef} {i : Instruction} (hi : m.StartsAt address k n f i) :
    covers f address = true := by
  have hf := List.mem_of_getElem? hi.function
  obtain ⟨frame, hscanned⟩ := h.exists_scanned hf
  have hlt := hscanned.offset_lt_totalSize hi.instruction
  have hsize := (h.mapping hf).1
  rw [CodeUnit.size] at hsize
  rw [covers_iff, hsize, hi.address_eq]
  omega

/-- Where an instruction starts, its function is found. -/
theorem Loads.functionAt?_of_startsAt (h : Loads config data m) {address : Int} {k n : Nat}
    {f : Entry FunctionDef} {i : Instruction} (hi : m.StartsAt address k n f i) :
    m.functionAt? address = some f :=
  h.functionAt?_eq_some_iff.mpr ⟨List.mem_of_getElem? hi.function, h.covers_of_startsAt hi⟩

/-- One instruction at most starts at an address. -/
theorem Loads.startsAt_unique (h : Loads config data m) {address : Int} {k l n o : Nat}
    {f g : Entry FunctionDef} {i j : Instruction} (hi : m.StartsAt address k n f i)
    (hj : m.StartsAt address l o g j) : k = l ∧ n = o := by
  obtain rfl := h.covers_unique hi.function hj.function (h.covers_of_startsAt hi)
    (h.covers_of_startsAt hj)
  obtain rfl := Option.some.inj (hi.function.symm.trans hj.function)
  obtain ⟨frame, hscanned⟩ := h.exists_scanned (List.mem_of_getElem? hi.function)
  have haddress := hi.address_eq.symm.trans hj.address_eq
  exact ⟨rfl, (hscanned.offset_eq_iff hi.instruction hj.instruction).mp (by omega)⟩

/-- The instruction at an address is the one that starts there. -/
theorem Loads.instructionAt?_eq_some_iff (h : Loads config data m) {address : Int}
    {i : Instruction} :
    m.instructionAt? address = some i ↔ ∃ k n f, m.StartsAt address k n f i := by
  rw [instructionAt?, Option.bind_eq_bind, Option.bind_eq_some_iff]
  constructor
  · rintro ⟨f, hf, hi⟩
    obtain ⟨hmem, -⟩ := h.functionAt?_eq_some_iff.mp hf
    obtain ⟨frame, hscanned⟩ := h.exists_scanned hmem
    obtain ⟨himem, hoffset⟩ := hscanned.find?_offset_eq_some_iff.mp hi
    obtain ⟨k, hk⟩ := List.mem_iff_getElem?.mp hmem
    obtain ⟨n, hn⟩ := List.mem_iff_getElem?.mp himem
    exact ⟨k, n, f, hk, hn, by omega⟩
  · rintro ⟨k, n, f, hi⟩
    obtain ⟨frame, hscanned⟩ := h.exists_scanned (List.mem_of_getElem? hi.function)
    have haddress := hi.address_eq
    exact ⟨f, h.functionAt?_of_startsAt hi, hscanned.find?_offset_eq_some_iff.mpr
      ⟨List.mem_of_getElem? hi.instruction, by omega⟩⟩

/-- The lookups of a loaded module are exact: whatever the configuration, an address finds the one
function that it is an address of and the one instruction that starts there, and nothing else. -/
theorem loaded_locates (h : Loads config data m) (address : Int) : m.Locates address where
  function_iff f := by rw [h.functionAt?_eq_some_iff, covers_iff]
  function_unique _ _ _ _ hk hl := h.covers_unique hk hl
  instruction_iff _ := h.instructionAt?_eq_some_iff
  instruction_unique _ _ _ _ _ _ _ _ := h.startsAt_unique
  function_of_instruction _ _ _ _ := h.functionAt?_of_startsAt
  none_iff := by
    simp only [Option.eq_none_iff_forall_ne_some, ne_eq, h.instructionAt?_eq_some_iff]
    exact ⟨fun hnone ⟨k, n, f, i, hi⟩ => hnone i ⟨k, n, f, hi⟩,
      fun hnone i ⟨k, n, f, hi⟩ => hnone ⟨k, n, f, i, hi⟩⟩

end

/-- A library with three functions: `LD_CONST 5`, `POP`, `RET`; one without instructions; `RET`. -/
def emptyBodySample : Bytes :=
  Format.assemble .libra [
    ⟨.moduleHandles, [0, 0]⟩, ⟨.functionHandles, [0, 1, 0, 0, 2, 0, 0, 3, 0]⟩,
    ⟨.addressPool, List.replicate 32 0⟩,
    ⟨.stringPool, [6, 0x3C, 0x53, 0x45, 0x4C, 0x46, 0x3E, 1, 0x66, 1, 0x67, 1, 0x68]⟩,
    ⟨.functionSignatures, [2, 0, 0]⟩, ⟨.localSignatures, [3, 0]⟩,
    ⟨.functionDefs,
      [0, 0, 1, 0, 3, 0, 0x06, 5, 0, 0, 0, 0, 0, 0, 0, 0x01, 0x02] ++ [1, 0, 0, 0, 0, 0] ++
        [2, 0, 0, 0, 1, 0, 0x02]⟩]

/-- The code of the sample has addresses from below zero on, and its functions without and with an
instruction start at the same one. -/
theorem emptyBodySample_locates : ∃ m,
    load { Config.standard with codeBase := -5 } emptyBodySample = .ok m ∧
      m.internalFunctions.map (fun f => (f.mapping.start, f.mapping.size)) =
        [(-5, 11), (6, 0), (6, 1)] ∧
      [-6, -5, -4, 4, 5, 6, 7].map (fun address =>
          ((m.functionAt? address).map (·.index), (m.instructionAt? address).map (·.index))) =
        [(none, none), (some 0, some 0), (some 0, none), (some 0, some 1), (some 0, some 2),
          (some 2, some 0), (none, none)] ∧
      m.Locates 6 := by
  have check : (load { Config.standard with codeBase := -5 } emptyBodySample).toOption.any (fun m =>
      decide (m.internalFunctions.map (fun f => (f.mapping.start, f.mapping.size)) =
          [(-5, 11), (6, 0), (6, 1)] ∧
        [-6, -5, -4, 4, 5, 6, 7].map (fun address =>
            ((m.functionAt? address).map (·.index), (m.instructionAt? address).map (·.index))) =
          [(none, none), (some 0, some 0), (some 0, none), (some 0, some 1), (some 0, some 2),
            (some 2, some 0), (none, none)])) = true := by
    decide +kernel
  obtain ⟨m, hload, hcheck⟩ := exists_of_any_toOption check
  obtain ⟨hplaces, hfound⟩ := of_decide_eq_true hcheck
  exact ⟨m, hload, hplaces, hfound, loaded_locates (.inl hload) 6⟩

end Module

end MoveBytecode
