import Dxil.Proofs.Bits.Local
import Dxil.Proofs.Module.Interface

/-!
# Dxil.Proofs.Module.Signatures

How the elements of a signature follow from metadata.

* `Certifies E x Q` : what `x` gives without an error has `Q`.
* `SignatureElement.DeclaredBy` : the operands of a node declare an element.
* `Certifies.signatureElement` : an element that was read without an error is the one declared.
* `Certifies.entryPoint` : so are all elements of the entry point.
-/

namespace Dxil

/-! ## Decoding without an error -/

/-- What `x` gives has `Q`, unless an error was reported, before or by `x`. -/
structure Certifies {α : Type} (E : GivesUp) (x : Decoder α) (Q : α → Prop) : Prop where
  ensures : Ensures E x fun _ => True
  of_ok : ∀ {p p' : Progress} {a : α}, p.Consistent → x p = .ok a p' → p'.failed = false → Q a

namespace Certifies

variable {α β : Type} {E : GivesUp} {x : Decoder α} {P Q : α → Prop}

theorem of_ensures (h : Ensures E x Q) : Certifies E x Q :=
  ⟨h.mono fun _ _ => trivial, fun hp hrun _ => (h.of_ok hp hrun).2⟩

theorem pure {a : α} (h : Q a) : Certifies E (Pure.pure a) Q :=
  of_ensures (.pure h)

/-- What comes first is certified only by what comes after it, which may report an error. -/
theorem bind {f : α → Decoder β} {R : β → Prop} (hx : Certifies E x P)
    (hf : ∀ a, Certifies E (f a) fun b => P a → R b) : Certifies E (x >>= f) R := by
  refine ⟨hx.ensures.bind fun a _ => (hf a).ensures, fun hp hrun hok => ?_⟩
  obtain ⟨a, p₁, ha, hrun⟩ := exists_of_bind_ok hrun
  have hp₁ := (hx.ensures.of_ok hp ha).1.consistent
  have hp' := ((hf a).ensures.of_ok hp₁ hrun).1
  exact (hf a).of_ok hp₁ hrun hok (hx.of_ok hp ha (hp'.not_failed hp₁ hok))

theorem mono (hx : Certifies E x P) (h : ∀ a, P a → Q a) : Certifies E x Q :=
  ⟨hx.ensures, fun hp hrun hok => h _ (hx.of_ok hp hrun hok)⟩

theorem reject {f : Finding} (hf : f.isError = true) :
    Certifies E (Dxil.reject f : Decoder α) Q :=
  of_ensures (.reject hf)

theorem rejectIf {c : Prop} [Decidable c] {f : Finding} (hf : f.isError = true) :
    Certifies E (Dxil.rejectIf c f) fun _ => ¬ c :=
  of_ensures (.rejectIf hf)

theorem orReject {o : Option α} {f : Finding} (hf : f.isError = true) :
    Certifies E (Dxil.orReject o f) fun a => o = some a :=
  of_ensures (.orReject hf)

theorem reportIf {c : Prop} [Decidable c] {f : Finding} (hf : f.isError = true) :
    Certifies E (Dxil.reportIf c f) fun _ => ¬ c := by
  refine ⟨.reportIf c f, fun _ hrun hok hc => ?_⟩
  unfold Dxil.reportIf at hrun
  rw [if_pos hc] at hrun
  cases hrun
  simp [Progress.add, hf] at hok

theorem requireUint {m : MetadataScope} (hm : m.Closed) (slot : Option Nat) {f : Finding}
    (hf : f.isError = true) :
    Certifies E (m.requireUint slot f) fun n => m.uint? slot = some n :=
  of_ensures (.requireUint hm slot hf)

end Certifies

/-! ## Elements -/

/-- The operands of the node for an element, by what they are. -/
structure ElementOperands where
  id : Option Nat
  name : Option Nat
  component : Option Nat
  kind : Option Nat
  indices : Option Nat
  interpolation : Option Nat
  rows : Option Nat
  columns : Option Nat
  startRow : Option Nat
  startColumn : Option Nat
  tags : Option Nat

/-- Ten operands, and the tags if there are more. -/
def ElementOperands.ofList? : List (Option Nat) → Option ElementOperands
  | id :: name :: component :: kind :: indices :: interpolation :: rows :: columns :: startRow ::
      startColumn :: rest =>
    some { id, name, component, kind, indices, interpolation, rows, columns, startRow, startColumn,
           tags := rest.headD none }
  | _ => none

namespace MetadataScope

variable (m : MetadataScope)

def element? (slot : Option Nat) : Option ElementOperands :=
  (m.node? slot).bind ElementOperands.ofList?

/-- The numbers that a list of tags gives for the stream. -/
def streams : List (Option Nat) → List UInt32
  | tag :: value :: rest =>
    (if m.uint? tag = some 0 then (m.uint? value).toList else []) ++ streams rest
  | _ => []

/-- The list in a slot counts up from `first`, without a gap. A list that is not there or has no
numbers stands for zero. -/
def CountsFrom (slot : Option Nat) (first : UInt32) : Prop :=
  (∃ slots, m.node? slot = some slots ∧ slots ≠ [] ∧ ∀ row s, slots[row]? = some s →
    ∃ n, m.uint? s = some n ∧ n.toNat = first.toNat + row) ∨
  ((slot = none ∨ m.node? slot = some []) ∧ first = 0)

end MetadataScope

def maxStream : Nat := 3

/-- Operands declare `e` as element number `i` of a signature. -/
structure SignatureElement.DeclaredBy (m : MetadataScope) (o : ElementOperands) (i : Nat)
    (e : SignatureElement) : Prop where
  id : ∃ id, m.uint? o.id = some id ∧ id.toNat = i
  name : m.string? o.name = some e.semanticName
  component : ∃ n, m.uint? o.component = some n ∧
    ComponentType.ofNumber n.toNat = (e.componentType, e.minPrecision)
  kind : ∃ n, m.uint? o.kind = some n ∧ SysVal.ofSemanticKind? n.toNat = some e.sysval
  interpolation : ∃ n, m.uint? o.interpolation = some n ∧
    InterpolationMode.ofNat? n.toNat = some e.interpolation
  indices : m.CountsFrom o.indices e.semanticIndex
  rows : m.uint? o.startRow = some e.registerIndex ∧ m.uint? o.rows = some e.registerCount ∧
    e.registerIndex.toNat + e.registerCount.toNat ≤ maxSignatureRows
  columns : ∃ first count, m.uint? o.startColumn = some first ∧ m.uint? o.columns = some count ∧
    first.toNat + count.toNat ≤ vec4Size ∧
    ∀ c, e.mask.getLsbD c = true ↔ first.toNat ≤ c ∧ c < first.toNat + count.toNat
  stream : e.streamIndex = (m.streams ((m.node? o.tags).getD [])).getLast?.getD 0 ∧
    e.streamIndex.toNat ≤ maxStream
  streams : ∀ n ∈ m.streams ((m.node? o.tags).getD []), n.toNat ≤ maxStream

/-- Operands that declare no element number `i`: the number is another one, rows or columns are not
there, a stream has no such number, or the semantic indices do not go on from the first. -/
inductive ElementOperands.Breaks (m : MetadataScope) (i : Nat) (o : ElementOperands) : Prop where
  | id {n : UInt32} (h : m.uint? o.id = some n) (hout : n.toNat ≠ i)
  | rows {first count : UInt32} (hfirst : m.uint? o.startRow = some first)
      (hcount : m.uint? o.rows = some count)
      (hout : maxSignatureRows < first.toNat + count.toNat)
  | columns {first count : UInt32} (hfirst : m.uint? o.startColumn = some first)
      (hcount : m.uint? o.columns = some count) (hout : vec4Size < first.toNat + count.toNat)
  | stream {n : UInt32} (h : n ∈ m.streams ((m.node? o.tags).getD [])) (hout : maxStream < n.toNat)
  | gap {slots : List (Option Nat)} {s s' : Option Nat} {row : Nat} {first n : UInt32}
      (hnode : m.node? o.indices = some slots) (hs : slots[0]? = some s)
      (hfirst : m.uint? s = some first) (hs' : slots[row]? = some s') (hn : m.uint? s' = some n)
      (hout : n.toNat ≠ first.toNat + row)

theorem SignatureElement.DeclaredBy.not_breaks {m : MetadataScope} {o : ElementOperands} {i : Nat}
    {e : SignatureElement} (h : e.DeclaredBy m o i) : ¬ o.Breaks m i := by
  intro hbreaks
  cases hbreaks with
  | id hn hout =>
    obtain ⟨id, hid, hi⟩ := h.id
    rw [hid] at hn
    cases hn
    exact hout hi
  | rows hfirst hcount hout =>
    obtain ⟨hfirst', hcount', hfits⟩ := h.rows
    rw [hfirst'] at hfirst
    rw [hcount'] at hcount
    cases hfirst
    cases hcount
    exact Nat.not_lt.mpr hfits hout
  | columns hfirst hcount hout =>
    obtain ⟨_, _, hfirst', hcount', hfits, -⟩ := h.columns
    rw [hfirst'] at hfirst
    rw [hcount'] at hcount
    cases hfirst
    cases hcount
    exact Nat.not_lt.mpr hfits hout
  | stream hn hout => exact Nat.not_lt.mpr (h.streams _ hn) hout
  | @gap slots s s' row _ _ hnode hs hfirst hs' hn hout =>
    rcases h.indices with ⟨slots', hnode', -, hcounts⟩ | ⟨hnone | hempty, -⟩
    · rw [hnode'] at hnode
      cases hnode
      obtain ⟨first, hfirst', hzero⟩ := hcounts 0 s hs
      obtain ⟨n, hn', hrow⟩ := hcounts row s' hs'
      rw [hfirst'] at hfirst
      rw [hn'] at hn
      cases hfirst
      cases hn
      omega
    · rw [hnone] at hnode
      cases hnode
    · rw [hempty] at hnode
      cases hnode
      cases hs

/-- One element is declared in each slot. -/
structure Signature.DeclaredBy (m : MetadataScope) (slots : List (Option Nat)) (sig : Signature) :
    Prop where
  length : sig.length = slots.length
  element : ∀ (i : Nat) (slot : Option Nat) (e : SignatureElement), slots[i]? = some slot →
    sig[i]? = some e → ∃ o, m.element? slot = some o ∧ e.DeclaredBy m o i

/-- The slots of the elements of signature number `k`, of the signatures in a slot. -/
def MetadataScope.elementSlots (m : MetadataScope) (slot : Option Nat) (k : Nat) :
    List (Option Nat) :=
  ((m.node? slot).bind fun signatures => m.node? (signatures.getD k none)).getD []

namespace EntryPoint

/-- The first entry point that the metadata names: the operands of its node, and where they are
looked up. -/
def node? (types : TypeTable) (values : Values) (tables : List MetadataTable) :
    Option (MetadataScope × List (Option Nat)) :=
  (findNamed? tables "dx.entryPoints").bind fun found =>
    (MetadataScope.node? { types, values, table := found.1 } found.2.head?).map fun operands =>
      ({ types, values, table := found.1 }, operands)

/-- The signatures are those that the operands of a node declare. -/
structure DeclaredBy (m : MetadataScope) (operands : List (Option Nat)) (e : EntryPoint) :
    Prop where
  inputs : e.inputs.DeclaredBy m (m.elementSlots (operands.getD 2 none) 0)
  outputs : e.outputs.DeclaredBy m (m.elementSlots (operands.getD 2 none) 1)

end EntryPoint

theorem WriteMask.getLsbD_ofRange {first count : Nat} (h : first + count ≤ vec4Size) (c : Nat) :
    (ofRange first count).getLsbD c = true ↔ first ≤ c ∧ c < first + count := by
  unfold vec4Size at h
  have hfirst : first ≤ 4 := Nat.le_trans (Nat.le_add_right _ _) h
  rw [ofRange, Nat.min_eq_left h, Nat.min_eq_left hfirst]
  simp only [BitVec.getLsbD_and, BitVec.getLsbD_not, BitVec.getLsbD_shiftLeft,
    BitVec.getLsbD_allOnes, Bool.and_eq_true, Bool.not_eq_true', Bool.not_eq_false',
    Bool.and_eq_false_iff, decide_eq_true_eq, decide_eq_false_iff_not]
  omega

namespace Ensures

variable {E : GivesUp}

theorem applyTag (e : SignatureElement) (startColumn : Nat) (tag value : UInt32) :
    Ensures E (e.applyTag startColumn tag value) fun e' =>
      (tag = 0 → value.toNat ≤ maxStream) ∧ ∃ used, e' = { e with
        streamIndex := if tag = 0 then value else e.streamIndex
        usedMask := used } := by
  have hother (h : tag.toNat ≠ 0) : tag ≠ 0 := fun hzero => h (by rw [hzero]; rfl)
  unfold SignatureElement.applyTag
  split
  · rename_i htag
    have hzero : tag = 0 := UInt32.toNat_inj.mp htag
    by_cases hvalue : 3 < value
    · rw [if_pos hvalue]
      exact .reject rfl
    · rw [if_neg hvalue]
      exact .pure ⟨fun _ => Nat.not_lt.mp hvalue, e.usedMask, by rw [if_pos hzero]⟩
  · rename_i htag
    have hne := hother (by omega)
    exact .pure ⟨fun hzero => absurd hzero hne, e.usedMask, by rw [if_neg hne]⟩
  · rename_i htag
    have hne := hother (by omega)
    exact (reportIf _ _).bind fun _ _ =>
      .pure ⟨fun hzero => absurd hzero hne, _, by rw [if_neg hne]⟩
  · rename_i hnot _ _
    have hne := hother hnot
    exact (report _).bind fun _ _ =>
      .pure ⟨fun hzero => absurd hzero hne, e.usedMask, by rw [if_neg hne]⟩

section

variable {m : MetadataScope} (hm : m.Closed)
include hm

theorem applyTags (startColumn : Nat) (e : SignatureElement) (tags : List (Option Nat)) :
    Ensures E (SignatureElement.applyTags m startColumn e tags) fun e' =>
      (∀ n ∈ m.streams tags, n.toNat ≤ maxStream) ∧ ∃ used, e' = { e with
        streamIndex := (m.streams tags).getLast?.getD e.streamIndex
        usedMask := used } := by
  fun_induction SignatureElement.applyTags m startColumn e tags with
  | case1 e tag value rest ih =>
    refine (metadataUint hm tag).bind fun t ht => (metadataUint hm value).bind fun v hv => ?_
    split
    · rename_i t v
      refine (applyTag e startColumn t v).bind fun e₁ ⟨hbound, used₁, he₁⟩ =>
        (ih e₁).mono fun e' ⟨hrest, used, he'⟩ => ?_
      have hstreams : m.streams (tag :: value :: rest) =
          (if t = 0 then [v] else []) ++ m.streams rest := by
        simp [MetadataScope.streams, ← ht, ← hv]
      rw [hstreams]
      refine ⟨fun n hn => ?_, used, ?_⟩
      · rcases List.mem_append.mp hn with hn | hn
        · by_cases hzero : t = 0
          · rw [if_pos hzero, List.mem_singleton] at hn
            rw [hn]
            exact hbound hzero
          · rw [if_neg hzero] at hn
            cases hn
        · exact hrest n hn
      · rw [he', he₁]
        by_cases hzero : t = 0
        · simp [hzero, List.getLast?_cons]
        · simp [hzero]
    · exact .reject rfl
  | case2 tags e hshort =>
    have hstreams : m.streams tags = [] := by
      rw [MetadataScope.streams]
      exact hshort
    rw [hstreams]
    exact .pure ⟨by simp, e.usedMask, rfl⟩

theorem decodeTags (startColumn : Nat) (e : SignatureElement) (slot : Option Nat) :
    Ensures E (e.decodeTags m startColumn slot) fun e' =>
      (∀ n ∈ m.streams ((m.node? slot).getD []), n.toNat ≤ maxStream) ∧ ∃ used, e' = { e with
        streamIndex := (m.streams ((m.node? slot).getD [])).getLast?.getD e.streamIndex
        usedMask := used } := by
  cases slot with
  | none =>
    have hstreams : m.streams ((m.node? none).getD []) = [] := rfl
    exact .pure ⟨by simp [hstreams], e.usedMask, rfl⟩
  | some i =>
    refine (orReject rfl).bind fun tags htags => (reportIf _ _).bind fun _ _ => ?_
    rw [htags]
    exact applyTags hm startColumn e tags

end

end Ensures

/-! ## Signatures -/

namespace Certifies

variable {E : GivesUp} {m : MetadataScope} (hm : m.Closed)
include hm

theorem checkSemanticRows (first : UInt32) (row : Nat) (slots : List (Option Nat)) :
    Certifies E (SignatureElement.checkSemanticRows m first row slots) fun _ =>
      ∀ k s, slots[k]? = some s → ∃ n, m.uint? s = some n ∧ n.toNat = first.toNat + (row + k) := by
  induction slots generalizing row with
  | nil => exact .pure (by simp)
  | cons slot slots ih =>
    refine (requireUint hm slot rfl).bind fun n => (reportIf rfl).bind fun _ =>
      (ih (row + 1)).mono fun _ hrest hsequence hn => ?_
    intro k s hs
    cases k with
    | zero =>
      cases hs
      exact ⟨n, hn, Decidable.not_not.mp hsequence⟩
    | succ k =>
      obtain ⟨n', hn', hcount⟩ := hrest k s (by simpa using hs)
      exact ⟨n', hn', by omega⟩

theorem decodeSemanticIndex (slot : Option Nat) :
    Certifies E (SignatureElement.decodeSemanticIndex m slot) (m.CountsFrom slot) := by
  cases slot with
  | none => exact .pure (.inr ⟨.inl rfl, rfl⟩)
  | some i =>
    refine (orReject rfl).bind fun slots => ?_
    cases slots with
    | nil => exact .pure fun hnode => .inr ⟨.inr hnode, rfl⟩
    | cons slot slots =>
      refine (requireUint hm slot rfl).bind fun first => (checkSemanticRows hm first 1 slots).bind
        fun _ => .pure fun hrest hfirst hnode => .inl ⟨_, hnode, by simp, fun row s hs => ?_⟩
      cases row with
      | zero =>
        cases hs
        exact ⟨first, hfirst, rfl⟩
      | succ row =>
        obtain ⟨n, hn, hcount⟩ := hrest row s (by simpa using hs)
        exact ⟨n, hn, by omega⟩

theorem signatureElement (i : Nat) (slot : Option Nat) :
    Certifies E (SignatureElement.decode m i slot) fun e =>
      ∃ o, m.element? slot = some o ∧ e.DeclaredBy m o i := by
  refine (orReject rfl).bind fun operands => ?_
  split
  · rename_i id name component kind indices interpolation rows columns startRow startColumn rest
    refine (of_ensures (.reportIf _ _)).bind fun _ =>
      (requireUint hm id rfl).bind fun idValue => (requireUint hm component rfl).bind
        fun componentValue => (requireUint hm kind rfl).bind fun kindValue =>
      (requireUint hm interpolation rfl).bind fun interpolationValue =>
      (requireUint hm rows rfl).bind fun rowsValue => (requireUint hm columns rfl).bind
        fun columnsValue => (requireUint hm startRow rfl).bind fun startRowValue =>
      (requireUint hm startColumn rfl).bind fun startColumnValue => (rejectIf rfl).bind fun _ =>
      (orReject rfl).bind fun semanticName => (orReject rfl).bind fun sysval =>
      (decodeSemanticIndex hm indices).bind fun semanticIndex => (orReject rfl).bind
        fun interpolationMode => (rejectIf rfl).bind fun _ => (rejectIf rfl).bind fun _ =>
      (of_ensures (.decodeTags hm _ _ _)).mono ?_
    -- What the steps certify comes back in reverse, the last step first.
    rintro _ ⟨hstreams, used, rfl⟩ hcolumns hrows hmode hindices hsysval hname hid hstartColumn
      hstartRow hcolumnCount hrowCount hinterpolation hkind hcomponent hidValue - hnode
    have hfits := Nat.not_lt.mp hcolumns
    have hlast :
        ((m.streams ((m.node? (rest.headD none)).getD [])).getLast?.getD 0).toNat ≤ maxStream := by
      cases hget : (m.streams ((m.node? (rest.headD none)).getD [])).getLast? with
      | none => exact Nat.zero_le _
      | some n => exact hstreams n (List.mem_of_getLast? hget)
    refine ⟨_, by rw [MetadataScope.element?, hnode]; rfl, ?_⟩
    exact
      { id := ⟨idValue, hidValue, Decidable.not_not.mp hid⟩
        name := hname
        component := ⟨componentValue, hcomponent, rfl⟩
        kind := ⟨kindValue, hkind, hsysval⟩
        interpolation := ⟨interpolationValue, hinterpolation, hmode⟩
        indices := hindices
        rows := ⟨hstartRow, hrowCount, Nat.not_lt.mp hrows⟩
        columns := ⟨startColumnValue, columnsValue, hstartColumn, hcolumnCount, hfits,
          WriteMask.getLsbD_ofRange hfits⟩
        stream := ⟨rfl, hlast⟩
        streams := hstreams }
  · exact .reject rfl

theorem signatureFrom (i : Nat) (slots : List (Option Nat)) :
    Certifies E (Signature.decodeFrom m i slots) fun sig => sig.length = slots.length ∧
      ∀ (k : Nat) (slot : Option Nat) (e : SignatureElement), slots[k]? = some slot →
        sig[k]? = some e → ∃ o, m.element? slot = some o ∧ e.DeclaredBy m o (i + k) := by
  induction slots generalizing i with
  | nil => exact .pure ⟨rfl, by simp⟩
  | cons slot slots ih =>
    refine (signatureElement hm i slot).bind fun e => (ih (i + 1)).bind fun es =>
      .pure fun ⟨hlength, hrest⟩ he => ⟨by simp [hlength], fun k s e' hs he' => ?_⟩
    cases k with
    | zero =>
      cases hs
      cases he'
      exact he
    | succ k =>
      have hnext := hrest k s e' (by simpa using hs) (by simpa using he')
      rwa [Nat.add_right_comm] at hnext

theorem signatureDecode (slot : Option Nat) :
    Certifies E (Signature.decode m slot) (Signature.DeclaredBy m ((m.node? slot).getD [])) := by
  cases slot with
  | none => exact .pure ⟨rfl, by simp⟩
  | some i =>
    refine (orReject rfl).bind fun slots => (signatureFrom hm 0 slots).mono
      fun sig ⟨hlength, helement⟩ hnode => ?_
    rw [hnode]
    refine ⟨hlength, fun k s e hs he => ?_⟩
    have hfrom := helement k s e hs he
    rwa [Nat.zero_add] at hfrom

theorem decodeSignatures (slot : Option Nat) :
    Certifies E (EntryPoint.decodeSignatures m slot) fun signatures =>
      signatures.1.DeclaredBy m (m.elementSlots slot 0) ∧
        signatures.2.DeclaredBy m (m.elementSlots slot 1) := by
  cases slot with
  | none => exact .pure ⟨⟨rfl, by simp⟩, ⟨rfl, by simp⟩⟩
  | some i =>
    refine (orReject rfl).bind fun signatures =>
      (signatureDecode hm (signatures.getD 0 none)).bind fun inputs =>
      (signatureDecode hm (signatures.getD 1 none)).bind fun outputs =>
      .pure fun houtputs hinputs hnode => ?_
    simp only [MetadataScope.elementSlots, hnode, Option.bind_some]
    exact ⟨hinputs, houtputs⟩

omit hm in
theorem checkName (function : String) (name : Option String) :
    Certifies E (EntryPoint.checkName function name) fun _ => True := by
  unfold EntryPoint.checkName
  split
  · exact of_ensures (.reportIf _ _)
  · exact .pure trivial

theorem entryPointOfNode (type : ShaderType) (operands : List (Option Nat)) :
    Certifies E (EntryPoint.ofNode m type operands) (EntryPoint.DeclaredBy m operands) := by
  unfold EntryPoint.ofNode
  split
  · have hfunction (slot : Option Nat) :
        Ensures E (EntryPoint.functionName m slot) fun _ => True :=
      (Ensures.orReject rfl).bind fun _ _ => (Ensures.orReject rfl).bind fun _ _ => .pure trivial
    exact (of_ensures (hfunction _)).bind fun function => (checkName function _).bind fun _ =>
      (decodeSignatures hm _).bind fun _ =>
      (of_ensures (.propertyDecodeAll hm type _)).bind fun _ =>
      .pure fun _ hsignatures _ _ => ⟨hsignatures.1, hsignatures.2⟩
  · exact .reject rfl

end Certifies

/-- The signatures of an entry point that was read without an error are those that are declared. -/
theorem Certifies.entryPoint {E : GivesUp} {types : TypeTable} {values : Values}
    {tables : List MetadataTable} (h : ∀ t ∈ tables, t.Closed types values) (type : ShaderType) :
    Certifies E (EntryPoint.decode types values tables type) fun entryPoint =>
      ∃ m operands, EntryPoint.node? types values tables = some (m, operands) ∧
        entryPoint.DeclaredBy m operands := by
  unfold EntryPoint.decode EntryPoint.node?
  cases hfind : findNamed? tables "dx.entryPoints" with
  | none => exact .reject rfl
  | some found =>
    obtain ⟨table, roots⟩ := found
    have hm : MetadataScope.Closed { types, values, table } := h table (mem_of_findNamed? hfind)
    refine (orReject rfl).bind fun operands => (entryPointOfNode hm type operands).mono
      fun entryPoint hdeclared hnode => ⟨_, operands, ?_, hdeclared⟩
    simp only [Option.bind_some, hnode, Option.map_some]

end Dxil
