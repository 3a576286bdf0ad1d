import Dxil.Proofs.BlockOrder
import Dxil.Proofs.Function.Numbering
import Dxil.Proofs.Function.Transcript
import Dxil.Proofs.Parse

/-!
# Dxil.Proofs.Budget

The value budget of a function, counted in the order of the stream, against the values that are
there while its body is decoded. The two orders differ: the constants of a module are all decoded
before any function body, while the budget counts those that stand before it.

* `Functions.Passes` : blocks without a body, which add what is counted for them, at most.
* `Functions.Begins` : where the body of a module begins, and with which values.
* `Block.lateConstants` : the constants that are there already but were not counted.
* `Functions.Begins.within` : the values that a body starts with, and one for each record, fit into
  its budget but for late constants.
* `values_within_budget` : at every record, values are within the budget but for late constants.
-/

namespace Dxil

/-! ## Values of module scope -/

theorem Gives.foldRecords_countP {σ : Type} {step : σ → Nat → Record → Decoder σ} (size : σ → Nat)
    {f : Record → Bool}
    (hstep : ∀ s i r, Gives (step s i r) fun s' => size s' = size s + (f r).toNat)
    (records : List Record) (i : Nat) (s : σ) :
    Gives (Dxil.foldRecords step i s records) fun s' => size s' = size s + records.countP f := by
  induction records generalizing i s with
  | nil => exact .pure rfl
  | cons r rs ih =>
    refine .after fun _ => (hstep s i r).bind fun s' hs' => (ih (i + 1) s').mono fun s'' hs'' => ?_
    rw [hs'', hs', List.countP_cons, Nat.add_assoc, Nat.add_comm (f r).toNat]
    cases f r <;> rfl

theorem Gives.of_yields {α : Type} {x : Decoder α} {Q : α → Prop} {a : α} (hx : Gives x Q)
    (h : Yields x a) : Q a := by
  obtain ⟨p, p', -, hrun⟩ := h
  exact hx p a p' hrun

namespace Constants

theorem Step.size {types : TypeTable} {s s' : State} {r : Record} (h : Step types s r s') :
    s'.pool.values.size = s.pool.values.size + (ValueBudget.definesConstant r).toNat := by
  cases h with
  | setType hcode =>
    have hnone : ValueBudget.definesConstant r = false := decide_eq_false fun h => h hcode
    rw [hnone]
    rfl
  | define hcode hcurrent hadds =>
    have hone : ValueBudget.definesConstant r = true := decide_eq_true hcode
    obtain ⟨v, hv⟩ := hadds.push
    rw [hone, hv, Array.size_push]
    rfl

theorem gives_decode_size (types : TypeTable) (pool : ConstantPool) (block : Block) :
    Gives (decode types pool block) fun pool' => pool'.values.size =
      pool.values.size + block.records.countP ValueBudget.definesConstant :=
  .after fun _ => (Gives.foldRecords_countP (fun s : State => s.pool.values.size)
    (fun s i r => (Gives.constantsAdd types s i r).mono fun _ => Step.size) block.records 0
    { pool }).bind fun _ h => .pure h

theorem gives_decodeAll_size (types : TypeTable) (blocks : List Block) (pool : ConstantPool) :
    Gives (decodeAll types pool blocks) fun pool' => pool'.values.size =
      pool.values.size + (blocks.flatMap Block.records).countP ValueBudget.definesConstant := by
  induction blocks generalizing pool with
  | nil => exact .pure rfl
  | cons block blocks ih =>
    refine (gives_decode_size types pool block).bind fun pool' h => (ih pool').mono fun _ h' => ?_
    rw [h', h, List.flatMap_cons, List.countP_append, Nat.add_assoc]

end Constants

namespace Globals

theorem Step.size {types : TypeTable} {s s' : State} {r : Record} (h : Step types s r s') :
    s'.values.size = s.values.size + (ValueBudget.declaresValue r).toNat := by
  unfold ValueBudget.declaresValue
  cases h with
  | skip hcode =>
    simp only [List.mem_cons, List.not_mem_nil, or_false] at hcode
    rcases hcode with hcode | hcode <;> rw [hcode] <;> rfl
  | function hcode =>
    rw [hcode]
    exact Array.size_push ..
  | array hcode =>
    rw [hcode]
    exact Array.size_push ..

theorem gives_decode_size (types : TypeTable) (symbols : SymbolTable) (root : Block) :
    Gives (decode types symbols root) fun globals => globals.pool.values.size =
      root.records.countP ValueBudget.declaresValue +
        ((root.children .constants).flatMap Block.records).countP ValueBudget.definesConstant := by
  refine .after fun _ => (Gives.foldRecords_countP (fun s : State => s.values.size)
    (fun s _ r => (Gives.globalsAdd types symbols s r).mono fun _ => Step.size) root.records 0
    {}).bind fun s hs => (Constants.gives_decodeAll_size types _ _).bind fun pool hpool =>
    .after fun _ => .pure ?_
  rw [hpool, hs]
  simp

end Globals

namespace Block

def hasBody (b : Block) : Bool := b.all.any isFunction

theorem any_allOf (blocks : List Block) : (allOf blocks).any isFunction = blocks.any hasBody := by
  induction blocks with
  | nil => rfl
  | cons block blocks ih => rw [allOf, List.any_append, ih, List.any_cons, hasBody]

theorem hasBody_mk (header : BlockHeader) (records : List Record) (blocks : List Block) :
    (mk header records blocks).hasBody =
      ((mk header records blocks).isFunction || blocks.any hasBody) := by
  rw [hasBody, all, List.any_cons, any_allOf]

def constantsIn (blocks : List Block) : Nat :=
  ((blocks.filter fun b => b.id = BlockKind.constants.id).flatMap records).countP
    ValueBudget.definesConstant

section

variable {header : BlockHeader} (records : List Record) (blocks : List Block)

theorem constantsIn_of_constants (h : BlockKind.ofId? header.id = some .constants) :
    constantsIn [mk header records blocks] = records.countP ValueBudget.definesConstant := by
  have hid : (mk header records blocks).id = BlockKind.constants.id := BlockKind.eq_id_of_ofId? h
  rw [constantsIn, List.filter_cons_of_pos (by simpa using hid), List.filter_nil,
    List.flatMap_singleton]
  rfl

theorem constantsIn_of_not_constants (h : BlockKind.ofId? header.id ≠ some .constants) :
    constantsIn [mk header records blocks] = 0 := by
  have hid : (mk header records blocks).id ≠ BlockKind.constants.id := by
    intro hid
    change header.id = _ at hid
    exact h (by rw [hid]; rfl)
  rw [constantsIn, List.filter_cons_of_neg (by simpa using hid)]
  rfl

end

theorem constantsIn_append (blocks blocks' : List Block) :
    constantsIn (blocks ++ blocks') = constantsIn blocks + constantsIn blocks' := by
  simp only [constantsIn, List.filter_append, List.flatMap_append, List.countP_append]

/-- The constants among blocks at a depth that are decoded with the module. -/
def knownConstants (level : Nat) (blocks : List Block) : Nat :=
  if level = 1 then constantsIn blocks else 0

theorem knownConstants_of_two_le {level : Nat} (h : 2 ≤ level) (blocks : List Block) :
    knownConstants level blocks = 0 := if_neg (by omega)

theorem knownConstants_le (level : Nat) (blocks : List Block) :
    knownConstants level blocks ≤ constantsIn blocks := by
  unfold knownConstants
  split
  · exact Nat.le_refl _
  · exact Nat.zero_le _

theorem knownConstants_nil (level : Nat) : knownConstants level [] = 0 := by
  unfold knownConstants
  split <;> rfl

theorem knownConstants_cons (level : Nat) (block : Block) (blocks : List Block) :
    knownConstants level (block :: blocks) =
      knownConstants level [block] + knownConstants level blocks := by
  unfold knownConstants
  split
  · exact constantsIn_append [block] blocks
  · rfl

end Block

/-! ## Counting -/

namespace ValueBudget

section

variable {header : BlockHeader} {records : List Record} {blocks : List Block} {n n' : Nat}
  {b b' : ValueBudget}

theorem exists_of_count (h : count (.mk header records blocks) n b = some (n', b')) :
    ∃ m b₁, countAll blocks (declared header records n) b = some (m, b₁) ∧
      reached header records n m b₁ = (n', b') := by
  rw [count_mk] at h
  obtain ⟨⟨m, b₁⟩, hall, hclose⟩ := Option.bind_eq_some_iff.mp h
  refine ⟨m, b₁, hall, ?_⟩
  change close header records n m b₁ = _ at hclose
  unfold close at hclose
  split at hclose
  · exact Option.some.inj hclose
  · cases hclose

theorem reached_of_not_function (h : BlockKind.ofId? header.id ≠ some .function)
    (blocks : List Block) {m : Nat} {b₁ : ValueBudget}
    (hreached : reached header records n m b₁ = (n', b')) :
    b' = b₁ ∧ n' = m + Block.constantsIn [.mk header records blocks] := by
  unfold reached at hreached
  split at hreached
  · rename_i hconstants
    cases hreached
    exact ⟨rfl, by rw [Block.constantsIn_of_constants _ _ hconstants]⟩
  · exact absurd ‹_› h
  · rename_i hconstants _
    cases hreached
    exact ⟨rfl, by rw [Block.constantsIn_of_not_constants _ _ hconstants]; rfl⟩

theorem prefix_reached {m : Nat} {b₁ : ValueBudget}
    (hreached : reached header records n m b₁ = (n', b')) : b₁.functions <+: b'.functions := by
  by_cases hkind : BlockKind.ofId? header.id = some .function
  · rw [reached, hkind] at hreached
    cases hreached
    exact List.prefix_append ..
  · obtain ⟨rfl, -⟩ := reached_of_not_function hkind [] hreached
    exact List.prefix_rfl

theorem countAll_cons {block : Block} (h : countAll (block :: blocks) n b = some (n', b')) :
    ∃ m b₁, count block n b = some (m, b₁) ∧ countAll blocks m b₁ = some (n', b') := by
  rw [countAll] at h
  cases hblock : count block n b with
  | none =>
    rw [hblock] at h
    cases h
  | some after =>
    rw [hblock] at h
    exact ⟨after.1, after.2, rfl, h⟩

theorem countAll_singleton (block : Block) (n : Nat) (b : ValueBudget) :
    countAll [block] n b = count block n b := by
  rw [countAll]
  cases count block n b with
  | none => rfl
  | some after => rfl

theorem countAll_append {blocks' : List Block}
    (h : countAll (blocks ++ blocks') n b = some (n', b')) :
    ∃ m b₁, countAll blocks n b = some (m, b₁) ∧ countAll blocks' m b₁ = some (n', b') := by
  induction blocks generalizing n b with
  | nil => exact ⟨n, b, rfl, h⟩
  | cons block blocks ih =>
    obtain ⟨m, b₁, hblock, hrest⟩ := countAll_cons h
    obtain ⟨m', b₂, hblocks, hblocks'⟩ := ih hrest
    exact ⟨m', b₂, by rw [countAll, hblock]; exact hblocks, hblocks'⟩

end

mutual

theorem functions_count {n n' : Nat} {b b' : ValueBudget} :
    (block : Block) → count block n b = some (n', b') → b.functions <+: b'.functions
  | .mk header records blocks, h => by
    obtain ⟨m, b₁, hall, hreached⟩ := exists_of_count h
    exact (functions_countAll blocks hall).trans (prefix_reached hreached)

theorem functions_countAll {n n' : Nat} {b b' : ValueBudget} :
    (blocks : List Block) → countAll blocks n b = some (n', b') → b.functions <+: b'.functions
  | [], h => by
    rw [countAll] at h
    cases h
    exact List.prefix_rfl
  | block :: blocks, h => by
    obtain ⟨m, b₁, hblock, hblocks⟩ := countAll_cons h
    exact (functions_count block hblock).trans (functions_countAll blocks hblocks)

end

theorem count_inside {header : BlockHeader} {records : List Record} {before after : List Block}
    {child : Block} {n n' : Nat} {b b' : ValueBudget}
    (h : count (.mk header records (before ++ child :: after)) n b = some (n', b')) :
    ∃ m b₁ m' b₂, countAll before (declared header records n) b = some (m, b₁) ∧
      count child m b₁ = some (m', b₂) ∧ b₂.functions <+: b'.functions := by
  obtain ⟨_, b₃, hall, hreached⟩ := exists_of_count h
  obtain ⟨m, b₁, hbefore, hrest⟩ := countAll_append hall
  obtain ⟨m', b₂, hchild, hafter⟩ := countAll_cons hrest
  exact ⟨m, b₁, m', b₂, hbefore, hchild,
    (functions_countAll after hafter).trans (prefix_reached hreached)⟩

end ValueBudget

/-! ## Blocks without a body -/

namespace Functions

/-- The count went from `n` to `n'` for the values added from `s` to `s'` and for `known` ones, at
least, and no function was given a budget. -/
structure Counted (known : Nat) (s s' : State) (n n' : Nat) (b b' : ValueBudget) : Prop where
  functions : b'.functions = b.functions
  values : s'.pool.values.size + known + n ≤ s.pool.values.size + n'

theorem Counted.trans {known known' : Nat} {s s' s'' : State} {n n' n'' : Nat}
    {b b' b'' : ValueBudget} (h : Counted known s s' n n' b b')
    (h' : Counted known' s' s'' n' n'' b' b'') :
    Counted (known + known') s s'' n n'' b b'' := by
  have hvalues := h.values
  have hvalues' := h'.values
  exact ⟨h'.functions.trans h.functions, by omega⟩

/-- Blocks at a depth, from `s` to `s'`, without a body. What they add is counted, and so are the
constants that were decoded with the module. -/
structure Passes (level : Nat) (blocks : List Block) (s s' : State) : Prop where
  before : s.body = none
  bodiless : ∀ block ∈ blocks, block.hasBody = false
  counted : ∀ n b n' b', ValueBudget.countAll blocks n b = some (n', b') →
    Counted (Block.knownConstants level blocks) s s' n n' b b'

namespace Passes

variable {level : Nat} {s s' s'' : State} {blocks : List Block}

theorem nil (h : s.body = none) : Passes level [] s s where
  before := h
  bodiless _ hblock := nomatch hblock
  counted n b n' b' hcount := by
    rw [ValueBudget.countAll] at hcount
    cases hcount
    exact ⟨rfl, by rw [Block.knownConstants_nil]; exact Nat.le_refl _⟩

theorem cons {block : Block} (h : Passes level [block] s s') (h' : Passes level blocks s' s'') :
    Passes level (block :: blocks) s s'' where
  before := h.before
  bodiless := List.forall_mem_cons.mpr ⟨h.bodiless block List.mem_cons_self, h'.bodiless⟩
  counted n b n' b' hcount := by
    obtain ⟨m, b₁, hblock, hblocks⟩ := ValueBudget.countAll_cons hcount
    rw [← ValueBudget.countAll_singleton] at hblock
    rw [Block.knownConstants_cons]
    exact (h.counted _ _ _ _ hblock).trans (h'.counted _ _ _ _ hblocks)

theorem block {inner : State} {header : BlockHeader} {records : List Record} (hlevel : 1 ≤ level)
    (h : Passes (level + 1) blocks s inner)
    (hkind : BlockKind.ofId? header.id ≠ some .function)
    (hvalues : s'.pool.values.size + Block.knownConstants level [.mk header records blocks] ≤
      inner.pool.values.size + Block.constantsIn [.mk header records blocks]) :
    Passes level [.mk header records blocks] s s' where
  before := h.before
  bodiless := by
    have hother : (Block.mk header records blocks).isFunction = false := decide_eq_false hkind
    rw [List.forall_mem_singleton, Block.hasBody_mk, hother, Bool.false_or, List.any_eq_false]
    exact fun block hblock => by rw [h.bodiless block hblock]; exact Bool.false_ne_true
  counted n b n' b' hcount := by
    rw [ValueBudget.countAll_singleton] at hcount
    obtain ⟨m, b₁, hall, hreached⟩ := ValueBudget.exists_of_count hcount
    obtain ⟨rfl, rfl⟩ := ValueBudget.reached_of_not_function hkind blocks hreached
    have hcounted := h.counted _ _ _ _ hall
    have hinner := hcounted.values
    rw [Block.knownConstants_of_two_le (by omega)] at hinner
    have hdeclared : n ≤ ValueBudget.declared header records n := ValueBudget.le_declared
    exact ⟨hcounted.functions, by omega⟩

end Passes

variable {scope : FunctionScope}

mutual

/-- A block after which there is still no body adds what was counted for it, at most. -/
theorem gives_passes {level : Nat} (hlevel : 1 ≤ level) (s : State) :
    (block : Block) → Gives (decode scope level s block) fun s' => s'.body = none →
      Passes level [block] s s'
  | .mk header records blocks => by
    rw [decode]
    refine (gives_passesAll (Nat.le_succ_of_le hlevel) s blocks).bind fun inner hinner =>
      .after fun _ => .after fun _ => ?_
    split
    · -- Constants of the module itself were decoded before, all others are decoded here.
      rename_i hkind
      have hother : BlockKind.ofId? header.id ≠ some .function := by
        rw [hkind]
        exact nofun
      split
      · rename_i hdepth
        refine (Constants.gives_decode_size scope.types inner.pool _).bind fun pool hpool =>
          .pure fun hnone => (hinner hnone).block hlevel hother ?_
        rw [Block.knownConstants_of_two_le hdepth, hpool, Block.constantsIn_of_constants _ _ hkind]
        exact Nat.le_refl _
      · exact .pure fun hnone => (hinner hnone).block hlevel hother
          (Nat.add_le_add_left (Block.knownConstants_le ..) _)
    · exact .after fun body => .pure fun hbody => nomatch hbody
    · rename_i hother
      exact .pure fun hnone => (hinner hnone).block hlevel hother
        (Nat.add_le_add_left (Block.knownConstants_le ..) _)

theorem gives_passesAll {level : Nat} (hlevel : 1 ≤ level) (s : State) :
    (blocks : List Block) → Gives (decodeAll scope level s blocks) fun s' => s'.body = none →
      Passes level blocks s s'
  | [] => by
    rw [decodeAll]
    exact .pure .nil
  | block :: blocks => by
    rw [decodeAll]
    refine (gives_passes hlevel s block).bind fun s' hfirst =>
      (gives_passesAll hlevel s' blocks).mono fun s'' hrest hnone => ?_
    have h := hrest hnone
    exact (hfirst h.before).cons h

end

/-! ## The first body -/

inductive Crosses (scope : FunctionScope) (level : Nat) : State → List Block → State → Prop where
  | nil {s : State} : Crosses scope level s [] s
  | cons {s s' s'' : State} {block : Block} {blocks : List Block}
      (h : Yields (decode scope level s block) s') (hs : Crosses scope level s' blocks s'') :
      Crosses scope level s (block :: blocks) s''

theorem Crosses.passes {level : Nat} (hlevel : 1 ≤ level) {s s' : State} {blocks : List Block}
    (h : Crosses scope level s blocks s') (hnone : s'.body = none) : Passes level blocks s s' := by
  induction h with
  | nil => exact .nil hnone
  | cons h _ ih =>
    have hrest := ih hnone
    exact ((gives_passes hlevel _ _).of_yields h hrest.before).cons hrest

/-- While `block` is decoded, the body of `b` in it is decoded from `inner` on. It is the first. -/
inductive Begins (scope : FunctionScope) :
    (level : Nat) → State → (block : Block) → (inner : State) → (b : Block) → Prop where
  | here {level : Nat} {s inner : State} {header : BlockHeader} {records : List Record}
      {blocks : List Block} (hkind : BlockKind.ofId? header.id = some .function)
      (hinner : Yields (decodeAll scope (level + 1) s blocks) inner) (hnone : inner.body = none) :
      Begins scope level s (.mk header records blocks) inner (.mk header records blocks)
  | inside {level : Nat} {s s' inner : State} {header : BlockHeader} {records : List Record}
      {before after : List Block} {child b : Block}
      (hbefore : Crosses scope (level + 1) s before s')
      (h : Begins scope (level + 1) s' child inner b) :
      Begins scope level s (.mk header records (before ++ child :: after)) inner b

/-- A body that comes to hold `size` values is given a budget for them, where `n` values were
counted up to `s`. -/
def Budgeted (size : Nat) (s : State) (n : Nat) (b b' : ValueBudget) : Prop :=
  ∃ first, b.functions ++ [first] <+: b'.functions ∧ size + n ≤ s.pool.values.size + first

theorem Budgeted.mono {size size' : Nat} {s : State} {n m : Nat} {b b' : ValueBudget}
    (h : Budgeted size s m b b') (hsize : size' ≤ size) (hn : n ≤ m) :
    Budgeted size' s n b b' := by
  obtain ⟨first, hfirst, hle⟩ := h
  exact ⟨first, hfirst, by omega⟩

namespace Begins

variable {level : Nat} {s s' inner : State} {block child b : Block}

theorem body_eq_none (h : Begins scope level s block inner b) : s.body = none := by
  induction h with
  | here _ hinner hnone =>
    exact ((gives_passesAll (Nat.le_add_left ..) _ _).of_yields hinner hnone).before
  | inside hbefore _ ih =>
    exact (hbefore.passes (Nat.le_add_left ..) ih).before

theorem hasBody (h : Begins scope level s block inner b) : block.hasBody = true := by
  induction h with
  | here hkind =>
    rw [Block.hasBody_mk, Block.isFunction]
    simp [Block.header, hkind]
  | inside _ _ ih => simp [Block.hasBody_mk, ih]

/-- What is known of a body in `child` is known of it in the block around, where the blocks before
it are counted. -/
theorem budgeted_inside {size n n' : Nat} {bud bud' : ValueBudget} {header : BlockHeader}
    {records : List Record} {before after : List Block}
    (hbefore : Crosses scope (level + 1) s before s') (hnone : s'.body = none)
    (hchild : ∀ n n' bud bud', ValueBudget.count child n bud = some (n', bud') →
      Budgeted size s' n bud bud')
    (hcount : ValueBudget.count (.mk header records (before ++ child :: after)) n bud =
      some (n', bud')) :
    Budgeted (size + Block.knownConstants (level + 1) before) s
      (ValueBudget.declared header records n) bud bud' := by
  obtain ⟨m, b₁, m', b₂, hcountBefore, hcountChild, hkept⟩ := ValueBudget.count_inside hcount
  have hcounted := (hbefore.passes (Nat.le_add_left ..) hnone).counted _ _ _ _ hcountBefore
  obtain ⟨first, hfirst, hle⟩ := hchild _ _ _ _ hcountChild
  rw [hcounted.functions] at hfirst
  have := hcounted.values
  exact ⟨first, hfirst.trans hkept, by omega⟩

/-- In a block of a module, a body has a budget for the values before it and one for each of its
records but the first. -/
theorem budgeted (h : Begins scope level s block inner b) (hlevel : 1 ≤ level) {n n' : Nat}
    {bud bud' : ValueBudget} (hcount : ValueBudget.count block n bud = some (n', bud')) :
    Budgeted (inner.pool.values.size + (b.records.length - 1)) s n bud bud' := by
  induction h generalizing n n' bud bud' with
  | @here level s inner header records blocks hkind hinner hnone =>
    obtain ⟨m, b₁, hall, hreached⟩ := ValueBudget.exists_of_count hcount
    rw [ValueBudget.reached, hkind] at hreached
    cases hreached
    have hpasses := (gives_passesAll (Nat.le_add_left ..) _ _).of_yields hinner hnone
    have hcounted := hpasses.counted _ _ _ _ hall
    have := hcounted.values
    have hdeclared : n ≤ ValueBudget.declared header records n := ValueBudget.le_declared
    have hfunctions : (b₁.addFunction m records).functions =
        bud.functions ++ [m + (max records.length 1 - 1)] := by
      rw [ValueBudget.addFunction, hcounted.functions]
    refine ⟨m + (max records.length 1 - 1), ⟨[], by rw [hfunctions, List.append_nil]⟩, ?_⟩
    change inner.pool.values.size + (records.length - 1) + n ≤ _
    omega
  | inside hbefore h ih =>
    exact (budgeted_inside hbefore h.body_eq_none (fun _ _ _ _ => ih (Nat.le_add_left ..))
      hcount).mono (Nat.le_add_right ..) ValueBudget.le_declared

end Begins

def Began (scope : FunctionScope) (level : Nat) (s : State) (block : Block)
    (body : FunctionBody) : Prop :=
  ∃ inner b, Begins scope level s block inner b ∧
    Yields (FunctionBody.decode scope inner.pool.values b) body

def BeganIn (scope : FunctionScope) (level : Nat) (s : State) (blocks : List Block)
    (body : FunctionBody) : Prop :=
  ∃ before child after s', blocks = before ++ child :: after ∧
    Crosses scope level s before s' ∧ Began scope level s' child body

end Functions

namespace Ensures

open Functions

variable {E : GivesUp} {scope : FunctionScope} {temps : Nat}

theorem and {α : Type} {x : Decoder α} {P Q : α → Prop} (hP : Ensures E x P) (hQ : Ensures E x Q) :
    Ensures E x fun a => P a ∧ Q a := by
  intro p hp
  have h := hP p hp
  have h' := hQ p hp
  cases hrun : x p with
  | ok a p' =>
    rw [hrun] at h h'
    exact ⟨h.1, h.2, h'.2⟩
  | error e p' =>
    rw [hrun] at h
    cases e with
    | invalid type => exact h
    | dangling => exact h

mutual

theorem functionsBegan (hs : scope.Sound) (level least : Nat) (s : State)
    (h : s.pool.Sound scope.types temps least) :
    (block : Block) → Ensures E (Functions.decode scope level s block) fun s' =>
      ∀ body, s'.body = some body → s.body = some body ∨ Began scope level s block body
  | .mk header records blocks => by
    rw [Functions.decode]
    refine ((functionsDecodeAll hs (level + 1) least s h blocks).and
      (functionsBeganIn hs (level + 1) least s h blocks)).yields.bind
      fun inner ⟨⟨hfollows, hbegan⟩, hyields⟩ => (setLine _).bind fun _ _ =>
        (setColumn _).bind fun _ _ => ?_
    have hinside : ∀ body, inner.body = some body →
        s.body = some body ∨ Began scope level s (.mk header records blocks) body := by
      intro body hbody
      refine (hbegan body hbody).imp_right ?_
      rintro ⟨before, child, after, s', rfl, hcrosses, inner', b, hbegins, hdecode⟩
      exact ⟨inner', b, .inside hcrosses hbegins, hdecode⟩
    split
    · split
      · exact (constantsDecode hs.types hfollows.pool _).bind fun pool _ => .pure hinside
      · exact .pure hinside
    · rename_i hkind
      unfold decodeBody
      cases hnone : inner.body with
      | some _ => exact Ensures.bind (P := fun _ => False) (.reject rfl) fun _ hfalse => hfalse.elim
      | none =>
        refine (bodyDecode hs hfollows.pool.values _).yields.bind fun body ⟨_, hdecode⟩ => .pure ?_
        rintro _ ⟨⟩
        exact .inr ⟨inner, _, .here hkind hyields hnone, hdecode⟩
    · exact .pure hinside

theorem functionsBeganIn (hs : scope.Sound) (level least : Nat) (s : State)
    (h : s.pool.Sound scope.types temps least) :
    (blocks : List Block) → Ensures E (Functions.decodeAll scope level s blocks) fun s' =>
      ∀ body, s'.body = some body → s.body = some body ∨ BeganIn scope level s blocks body
  | [] => by
    rw [Functions.decodeAll]
    exact .pure fun _ hbody => .inl hbody
  | block :: blocks => by
    rw [Functions.decodeAll]
    refine ((functionsDecode hs level least s h block).and
      (functionsBegan hs level least s h block)).yields.bind
      fun s' ⟨⟨hfollows, hfirst⟩, hyields⟩ =>
        (functionsBeganIn hs level least s' hfollows.pool blocks).mono
          fun s'' hrest body hbody => ?_
    rcases hrest body hbody with hbefore | ⟨before, child, after, s₁, rfl, hcrosses, hbegan⟩
    · refine (hfirst body hbefore).imp_right fun hbegan => ?_
      exact ⟨[], block, blocks, s, rfl, .nil, hbegan⟩
    · exact .inr ⟨block :: before, child, after, s₁, rfl, .cons hyields hcrosses, hbegan⟩

end

end Ensures

/-! ## Late constants -/

/-- The constants of a module that stand behind its function body, or around it. They are decoded
before the body, but not counted for it. -/
def Block.lateConstants (root : Block) : Nat :=
  constantsIn (root.blocks.dropWhile fun block => !block.hasBody)

theorem Block.lateConstants_mk {header : BlockHeader} {records : List Record}
    {before after : List Block} {child : Block} (hbefore : ∀ block ∈ before, block.hasBody = false)
    (hchild : child.hasBody = true) :
    (mk header records (before ++ child :: after)).lateConstants =
      constantsIn (child :: after) := by
  rw [lateConstants, blocks, List.dropWhile_append_of_pos fun block hblock => ?_,
    List.dropWhile_cons_of_neg ?_]
  · simp [hchild]
  · simp [hbefore block hblock]

theorem ValueBudget.exists_of_ofModule? {root : Block} {budget : ValueBudget}
    (h : ofModule? root = some budget) :
    ∃ total b, count root 0 {} = some (total, b) ∧ budget.functions = b.functions := by
  unfold ofModule? at h
  cases hcount : count root 0 {} with
  | none =>
    rw [hcount] at h
    cases h
  | some result =>
    rw [hcount] at h
    cases h
    exact ⟨_, _, rfl, rfl⟩

/-- The values that a body starts with, and one for each of its records but the first, fit into the
budget of the module but for late constants. -/
theorem Functions.Begins.within {scope : FunctionScope} {s inner : State} {root b : Block}
    {budget : ValueBudget} (h : Begins scope 0 s root inner b)
    (hroot : root.id = BlockKind.module.id)
    (hvalues : s.pool.values.size =
      root.records.countP ValueBudget.declaresValue + Block.constantsIn root.blocks)
    (hbudget : ValueBudget.ofModule? root = some budget) :
    inner.pool.values.size + (b.records.length - 1) ≤
      budget.functions.headD 0 + root.lateConstants := by
  obtain ⟨total, bud, hcount, hfunctions⟩ := ValueBudget.exists_of_ofModule? hbudget
  cases h with
  | @here _ _ _ header _ _ hkind =>
    have hid : header.id = BlockKind.module.id := hroot
    rw [hid] at hkind
    cases hkind
  | @inside _ _ s' _ header records before after child _ hbefore hchild =>
    have hid : header.id = BlockKind.module.id := hroot
    have hnone := hchild.body_eq_none
    obtain ⟨first, hfirst, hle⟩ := Begins.budgeted_inside hbefore hnone
      (fun _ _ _ _ => hchild.budgeted (Nat.le_refl 1)) hcount
    have hhead : budget.functions.headD 0 = first := by
      obtain ⟨rest, hrest⟩ := hfirst
      rw [hfunctions, ← hrest]
      rfl
    have hdeclared : ValueBudget.declared header records 0 =
        records.countP ValueBudget.declaresValue := by
      rw [ValueBudget.declared, if_pos hid, Nat.zero_add]
    have hknown : Block.knownConstants (0 + 1) before = Block.constantsIn before := rfl
    have hstart : s.pool.values.size = records.countP ValueBudget.declaresValue +
        (Block.constantsIn before + Block.constantsIn (child :: after)) := by
      rw [← Block.constantsIn_append]
      exact hvalues
    have hbodiless := (hbefore.passes (Nat.le_refl 1) hnone).bodiless
    rw [hhead, Block.lateConstants_mk hbodiless hchild.hasBody]
    rw [hdeclared, hknown, hstart] at hle
    omega

/-! ## Bodies -/

theorem Numbers.size_le {scope : FunctionScope} {values values' : Values} {r : Record}
    (h : Numbers scope values r values') : values'.size ≤ values.size + 1 := by
  by_cases hdefines : DefinesValue scope values r
  · obtain ⟨v, rfl⟩ := h.defined hdefines
    exact Nat.le_of_eq (Array.size_push ..)
  · rw [h.otherwise hdefines]
    exact Nat.le_succ _

theorem BodyState.Reaches.size_le {scope : FunctionScope} {values : Values} {before : List Record}
    {s : BodyState} (h : Reaches scope values before s) :
    s.values.size ≤ values.size + before.length := by
  induction h with
  | start => exact Nat.le_refl _
  | next _ hstep ih =>
    have := ((gives_step 1).of_yields hstep).size_le
    rw [List.length_append, List.length_singleton]
    omega

theorem refers_of_size_le {scope : FunctionScope} {values : Values} {r : Record} {i j : Nat}
    {v : Value} {distance : UInt64} (hbound : values.size ≤ scope.bound) (hj : j < UInt32.size)
    (hv : values[j]? = some v) (hoperand : r.operands[i]? = some distance)
    (hdistance : distance.toUInt32 = UInt32.ofNat values.size - UInt32.ofNat j) :
    Refers scope values r i v := by
  have hlt := (Array.getElem?_eq_some_iff.mp hv).1
  have hback (a b : UInt32) : a - (a - b) = b := by grind
  have hindex : (UInt32.ofNat values.size - distance.toUInt32).toNat = j := by
    rw [hdistance, hback, UInt32.toNat_ofNat_of_lt' hj]
  exact ⟨distance, hoperand, by omega, by rw [hindex]; exact hv⟩

/-- While the body of a function is decoded, values stay within its budget, but for late constants.

At every record of the body, the values that are there and one for each record to come are no more
than the budget and the constants of the module that stand behind the function, or around it. Where
there are no such constants, a record can refer to every value that is there. Every body that is
decoded begins in this way. -/
theorem values_within_budget {version : ShaderVersion} {bitcode : Bitcode} {q : Program.Prepared}
    (hroot : bitcode.root.id = BlockKind.module.id)
    (hq : Yields (Program.prepare version bitcode) q) :
    (∀ inner b, Functions.Begins q.scope 0 { pool := q.globals.pool } bitcode.root inner b →
      ∀ before after s, b.records.tail = before ++ after →
        BodyState.Reaches q.scope inner.pool.values before s →
        s.values.size + after.length ≤ q.scope.bound + bitcode.root.lateConstants ∧
        (bitcode.root.lateConstants = 0 →
          ∀ (j : Nat) (v : Value), s.values[j]? = some v → j < UInt32.size →
          ∀ (r : Record) (i : Nat) (distance : UInt64), r.operands[i]? = some distance →
            distance.toUInt32 = UInt32.ofNat s.values.size - UInt32.ofNat j →
            ∀ known p, valueAt q.scope s.values r known i p = .ok (v, i + 1) p)) ∧
    ∀ functions body,
      Yields (Functions.decode q.scope 0 { pool := q.globals.pool } bitcode.root) functions →
      functions.body = some body →
      ∃ inner b, Functions.Begins q.scope 0 { pool := q.globals.pool } bitcode.root inner b ∧
        Yields (FunctionBody.decode q.scope inner.pool.values b) body := by
  have hsound := (Ensures.prepare version bitcode).of_yields hq
  obtain ⟨symbols, globals, -, hglobals, hpool⟩ := hsound.prepared.globals
  obtain ⟨budget, hbudget, hbound⟩ := hsound.prepared.bound
  have hvalues := (Globals.gives_decode_size q.scope.types symbols bitcode.root).of_yields hglobals
  rw [← hpool] at hvalues
  constructor
  · intro inner b hbegins before after s hrecords hreaches
    have hwithin := hbegins.within hroot hvalues hbudget
    rw [← hbound] at hwithin
    have hlength : b.records.length - 1 = before.length + after.length := by
      rw [← List.length_tail, hrecords, List.length_append]
    have hsize := hreaches.size_le
    refine ⟨by omega, fun hlate j v hv hj r i distance hoperand hdistance known p => ?_⟩
    exact valueAt_of_refers (refers_of_size_le (by omega) hj hv hoperand hdistance) known p
  · intro functions body hdecode hbody
    have hbegan := Ensures.functionsBegan (E := .anyhow) hsound.scope 0 _
      { pool := q.globals.pool } hsound.pool bitcode.root
    rcases hbegan.of_yields hdecode body hbody with hbefore | hbegan
    · cases hbefore
    · exact hbegan

/-! ## A module with late constants -/

/-- A module with a function that adds two of three constants, and with the given blocks. -/
def sumModule (blocks : List Block) : Bitcode :=
  { magic := bitcodeMagic
    root := .mk ⟨BlockKind.module.id, 3, 3, 38, 0⟩ [⟨1, [1]⟩, ⟨8, [2, 0, 0, 0, 0, 0, 0, 0]⟩] blocks
    endPosition := 41
    wordCount := 41 }

namespace sumModule

def types : Block :=
  .mk ⟨BlockKind.type.id, 4, 5, 4, 1⟩
    [⟨1, [4]⟩, ⟨7, [32]⟩, ⟨2, []⟩, ⟨21, [0, 1]⟩, ⟨8, [2, 0]⟩] []

def constants : Block :=
  .mk ⟨BlockKind.constants.id, 4, 32, 3, 1⟩ [⟨1, [0]⟩, ⟨4, [10]⟩, ⟨4, [12]⟩, ⟨4, [14]⟩] []

def metadata : Block :=
  .mk ⟨BlockKind.metadata.id, 4, 14, 11, 1⟩
    [⟨2, [3, 0]⟩, ⟨1, [109, 97, 105, 110]⟩, ⟨3, [1, 2, 0, 0, 0]⟩,
      ⟨4, [100, 120, 46, 101, 110, 116, 114, 121, 80, 111, 105, 110, 116, 115]⟩, ⟨10, [2]⟩] []

def sum : Record := ⟨2, [2, 1, 0]⟩

def body : Block :=
  .mk ⟨BlockKind.function.id, 4, 27, 3, 1⟩ [⟨1, [1]⟩, sum, ⟨10, []⟩] []

def symbols : Block :=
  .mk ⟨BlockKind.valueSymtab.id, 4, 37, 3, 1⟩ [⟨1, [0, 109, 97, 105, 110]⟩] []

def early : Bitcode := sumModule [types, constants, metadata, body, symbols]

def late : Bitcode := sumModule [types, metadata, body, constants, symbols]

def version : ShaderVersion := ⟨.pixel, 6, 0⟩

end sumModule

theorem consistent_mainProgress : mainProgress.Consistent := by
  simp [Progress.Consistent, mainProgress]

theorem exists_yields_of_run' {α : Type} {x : Decoder α} {f : α → Bool}
    (h : (x.run' mainProgress).any f = true) : ∃ a, Yields x a ∧ f a = true := by
  delta EStateM.run' EStateM.run at h
  cases hrun : x mainProgress with
  | ok a p' =>
    rw [hrun] at h
    exact ⟨a, ⟨_, p', consistent_mainProgress, hrun⟩, h⟩
  | error e p' =>
    rw [hrun] at h
    cases h

namespace sumModule

section

variable (scope : FunctionScope) (s : Functions.State)

/-- Types and metadata add no values, and neither do constants that are known. -/
theorem crosses_early : Functions.Crosses scope 1 s [types, constants, metadata] s :=
  .cons ⟨_, _, consistent_mainProgress, rfl⟩ (.cons ⟨_, _, consistent_mainProgress, rfl⟩
    (.cons ⟨_, _, consistent_mainProgress, rfl⟩ .nil))

theorem crosses_late : Functions.Crosses scope 1 s [types, metadata] s :=
  .cons ⟨_, _, consistent_mainProgress, rfl⟩ (.cons ⟨_, _, consistent_mainProgress, rfl⟩ .nil)

theorem begins {before : List Block} (h : Functions.Crosses scope 1 s before s)
    (hnone : s.body = none) (after : List Block) :
    Functions.Begins scope 0 s (sumModule (before ++ body :: after)).root s body :=
  .inside h (.here rfl ⟨_, _, consistent_mainProgress, rfl⟩ hnone)

end

end sumModule

open sumModule in
/-- Constants that stand before the function are in its budget, also once a record was passed. -/
theorem values_within_budget_early :
    ∃ q, Yields (Program.prepare version early) q ∧ early.root.lateConstants = 0 ∧
      q.globals.pool.values.size = 4 ∧ q.scope.bound = 6 ∧
      ∃ s, BodyState.Reaches q.scope q.globals.pool.values [sum] s ∧ s.values.size + 1 ≤ 6 := by
  obtain ⟨q, hq, hfacts⟩ := exists_yields_of_run' (x := Program.prepare version early)
    (f := fun q => q.globals.pool.values.size = 4 ∧ q.scope.bound = 6) (by decide +kernel)
  obtain ⟨hsize, hbound⟩ := of_decide_eq_true hfacts
  have hsound := (Ensures.prepare version early).of_yields hq
  have hcode : FunctionCode.ofNat? sum.code.toNat = some .binary := rfl
  obtain ⟨s, p, hstep⟩ := BodyState.exists_step hsound.scope
    (s := { values := q.globals.pool.values }) (fun v hv => (hsound.pool.values v hv).usable)
    rfl hcode (by decide) 1 mainProgress
  have hreaches : BodyState.Reaches q.scope q.globals.pool.values ([] ++ [sum]) s :=
    .next .start ⟨_, p, consistent_mainProgress, hstep⟩
  have hlate : early.root.lateConstants = 0 := by decide
  have hbegins := begins q.scope { pool := q.globals.pool } (crosses_early ..) rfl [symbols]
  have hwithin := ((values_within_budget rfl hq).1 _ body hbegins [sum] [⟨10, []⟩] s rfl hreaches).1
  rw [hbound, hlate] at hwithin
  exact ⟨q, hq, hlate, hsize, hbound, s, hreaches, hwithin⟩

open sumModule in
/-- The values that are there when the body begins are more than its budget. -/
theorem values_not_always_within_budget :
    ¬ ∀ (version : ShaderVersion) (bitcode : Bitcode) (q : Program.Prepared)
      (inner : Functions.State) (b : Block) (before after : List Record) (s : BodyState),
      bitcode.root.id = BlockKind.module.id → Yields (Program.prepare version bitcode) q →
      Functions.Begins q.scope 0 { pool := q.globals.pool } bitcode.root inner b →
      b.records.tail = before ++ after → BodyState.Reaches q.scope inner.pool.values before s →
      s.values.size ≤ q.scope.bound := by
  intro h
  obtain ⟨q, hq, hfacts⟩ := exists_yields_of_run' (x := Program.prepare version late)
    (f := fun q => q.scope.bound = 3 ∧ q.globals.pool.values.size = 4) (by decide +kernel)
  obtain ⟨hbound, hsize⟩ := of_decide_eq_true hfacts
  have hbegins := begins q.scope { pool := q.globals.pool } (crosses_late ..) rfl
    [constants, symbols]
  have hle := h version late q _ body [] _ _ rfl hq hbegins rfl .start
  change q.globals.pool.values.size ≤ _ at hle
  omega

end Dxil
