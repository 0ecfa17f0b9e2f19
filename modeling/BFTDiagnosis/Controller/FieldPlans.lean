import BFTDiagnosis.Controller.Plans

/-!
# Middle items of the field-driven behaviours

Ambiguous messages and conspiring replicas are tested in every phase, with every field of its messages and
every number of nodes. The position in these three loops is in the middle item and in the table of fields,
from which a field is popped whenever the numbers of nodes are exhausted. Each combination is tested once, and
afterwards the table is empty.
-/

namespace BFTDiagnosis.Controller

open Components Utils Word

variable {X : Externals}

/-- The two behaviours that are driven by the table of fields. -/
inductive FieldTest where
  | ambiguous
  | conspire
deriving DecidableEq

namespace FieldTest

def behaviour : FieldTest → Round → UInt8 → List String → UInt16 → MaliciousBehaviour
  | ambiguous => .leaderSendAmbiguousMessage
  | conspire => .replicaNodeConspireForgeMessages

def item (test : FieldTest) (round : Round) (maxPhase : UInt8) (field : List String) (count : UInt16) : TestItem :=
  .malicious (test.behaviour round maxPhase field count)

theorem completeTest_eq (test : FieldTest) (c : Controller) (round : Round) (maxPhase : UInt8)
    (field : List String) (count : UInt16) : c.completeTest (test.item round maxPhase field count) =
      c.completeField test.behaviour round maxPhase field count := by
  cases test <;> rfl

theorem hasPhase_item (test : FieldTest) (phase maxPhase : UInt8) (field : List String) (count : UInt16) :
    hasPhase (test.item (.otherRound phase) maxPhase field count) = true := by
  cases test <;> rfl

theorem item_inj {test : FieldTest} {phase phase' maxPhase : UInt8} {field field' : List String}
    {count count' : UInt16} (h : test.item (.otherRound phase) maxPhase field count =
      test.item (.otherRound phase') maxPhase field' count') :
    phase = phase' ∧ field = field' ∧ count = count' := by
  cases test <;> simpa [item, behaviour] using h

end FieldTest

/-! ## One step of the cursor -/

theorem Produces.last {between : Input → Bool} {c c₁ : Controller} {item : TestItem}
    (h : c.completeTest item = some c₁) (hmiddle : c₁.nextMidTestItem = none) :
    Produces X between c item [] := by
  intro walk
  obtain ⟨c', actions, htaken, hsame⟩ := exists_completedTest h (by simp [hmiddle]) walk
  exact ⟨c', actions, htaken, hsame.middle.trans hmiddle⟩

theorem Produces.cons {c c₁ : Controller} {item next : TestItem} {items : List TestItem}
    (h : c.completeTest item = some c₁) (hmiddle : c₁.nextMidTestItem = some next)
    (hphase : hasPhase next = true)
    (hrest : ∀ c', SameCursor c₁ c' → Produces X isQuiet c' next items) :
    Produces X isQuiet c item (next :: items) := by
  intro walk
  have hphases : ∀ next' ∈ c₁.nextMidTestItem, hasPhase next' = true := by
    rw [hmiddle]
    rintro next' ⟨⟩
    exact hphase
  obtain ⟨c', actions, htaken, hsame⟩ := exists_completedTest h hphases walk
  refine ⟨c', actions, htaken, hsame.middle.trans hmiddle, ?_⟩
  intro run c'' hrun hquiet
  exact hrest c'' (hsame.trans (sameCursor_of_isRun hrun hquiet))

theorem maliciousTestNextField_of_concat {c : Controller} {phase : UInt8} {paths : List (List String)}
    {field : List String} (h : c.fields.lookup phase = some (paths ++ [field])) :
    c.maliciousTestNextField phase = some ({ c with fields := c.fields.insert phase paths }, field) := by
  simp [maliciousTestNextField, h]

theorem maliciousTestNextField_of_nil {c : Controller} {phase : UInt8}
    (h : c.fields.lookup phase = some []) :
    c.maliciousTestNextField phase = some ({ c with fields := c.fields.erase phase }, []) := by
  simp [maliciousTestNextField, h]

theorem completeTest_firstRound (test : FieldTest) {maxPhase : UInt8} (h : 1 ≤ maxPhase) (field : List String)
    (count : UInt16) (c : Controller) : c.completeTest (test.item .firstRound maxPhase field count) = do
      let (c, field) ← c.maliciousTestNextField 1
      return c.setNextMidTestItem (some (test.item (.otherRound 1) maxPhase field 1)) := by
  rw [test.completeTest_eq, completeField,
    if_pos (show 0 < maxPhase from UInt8.lt_iff_toNat_lt.2 (UInt8.le_iff_toNat_le.1 h))]
  rfl

/-! ## Three nested loops -/

section Loops

variable (test : FieldTest) (table : UInt8 → List (List String)) (maxPhase : UInt8) (nodes : ℕ)

/-- The cursor is in a phase, of which the given fields are left, and the phases after it are untouched. -/
structure AtPhase (phase : UInt8) (left : List (List String)) (c : Controller) : Prop where
  nodes_eq : c.waitingConsensusNodes.card = nodes
  current : c.fields.lookup phase = some left
  later : ∀ phase', phase < phase' → phase' ≤ maxPhase → c.fields.lookup phase' = some (table phase')

/-- The middle items of one field, from a number of nodes on. -/
def countItems (phase : UInt8) (field : List String) (first number : ℕ) : List TestItem :=
  (List.range' first number).map fun count ↦ test.item (.otherRound phase) maxPhase field (UInt16.ofNat count)

/-- The middle items of one field. -/
def blockItems (block : UInt8 × List String) : List TestItem :=
  countItems test maxPhase block.1 block.2 1 nodes

variable {test table maxPhase nodes}

theorem AtPhase.of_sameCursor {phase : UInt8} {left : List (List String)} {c c' : Controller}
    (h : AtPhase table maxPhase nodes phase left c) (hsame : SameCursor c c') :
    AtPhase table maxPhase nodes phase left c' where
  nodes_eq := by rw [hsame.waiting, h.nodes_eq]
  current := by rw [hsame.fields, h.current]
  later phase' hlt hle := by rw [hsame.fields, h.later phase' hlt hle]

/-- The inner loop: the numbers of nodes from the current one on. -/
theorem produces_counts (hnodes : nodes < 2 ^ 16) {phase : UInt8} {left : List (List String)}
    {field : List String} {rest : List TestItem}
    (hrest : ∀ c, AtPhase table maxPhase nodes phase left c →
      Produces X isQuiet c (test.item (.otherRound phase) maxPhase field (UInt16.ofNat nodes)) rest)
    {c : Controller} (h : AtPhase table maxPhase nodes phase left c) (count : ℕ) (hle : count ≤ nodes) :
    Produces X isQuiet c (test.item (.otherRound phase) maxPhase field (UInt16.ofNat count))
      (countItems test maxPhase phase field (count + 1) (nodes - count) ++ rest) := by
  induction hnumber : nodes - count generalizing count c with
  | zero =>
    obtain rfl : count = nodes := by omega
    exact hrest c h
  | succ number ih =>
    have hcount : (UInt16.ofNat count).toNat = count := by
      rw [UInt16.toNat_ofNat']
      exact Nat.mod_eq_of_lt (by omega)
    have hne : ¬ (UInt16.ofNat count).toNat = c.waitingConsensusNodes.card := by
      rw [h.nodes_eq, hcount]
      omega
    have hsucc : checkedAdd16 (UInt16.ofNat count) 1 = some (UInt16.ofNat (count + 1)) := by
      rw [checkedAdd16_eq_some_iff, hcount, UInt16.toNat_ofNat']
      exact Nat.mod_eq_of_lt (by omega)
    have hcompleted : c.completeTest (test.item (.otherRound phase) maxPhase field (UInt16.ofNat count)) =
        some (c.setNextMidTestItem (some (test.item (.otherRound phase) maxPhase field
          (UInt16.ofNat (count + 1))))) := by
      rw [test.completeTest_eq, completeField, if_neg hne, hsucc]
      rfl
    rw [countItems, List.range'_succ, List.map_cons, List.cons_append]
    apply Produces.cons hcompleted rfl (test.hasPhase_item _ _ _ _)
    intro c' hsame
    have hnext : AtPhase table maxPhase nodes phase left (c.setNextMidTestItem (some (test.item (.otherRound phase)
        maxPhase field (UInt16.ofNat (count + 1))))) := ⟨h.nodes_eq, h.current, h.later⟩
    exact ih (hnext.of_sameCursor hsame) (count + 1) (by omega) (by omega)

/-- One block: a field has been popped and is tested with every number of nodes. -/
theorem produces_block (hpositive : 0 < nodes) (hnodes : nodes < 2 ^ 16) {phase : UInt8}
    {left : List (List String)} {field : List String} {rest : List TestItem} {c c₁ : Controller} {item : TestItem}
    (hcompleted : c.completeTest item = some c₁)
    (hmiddle : c₁.nextMidTestItem = some (test.item (.otherRound phase) maxPhase field 1))
    (h : AtPhase table maxPhase nodes phase left c₁)
    (hrest : ∀ c, AtPhase table maxPhase nodes phase left c →
      Produces X isQuiet c (test.item (.otherRound phase) maxPhase field (UInt16.ofNat nodes)) rest) :
    Produces X isQuiet c item (blockItems test maxPhase nodes (phase, field) ++ rest) := by
  obtain ⟨number, rfl⟩ : ∃ number, nodes = number + 1 := ⟨nodes - 1, by omega⟩
  rw [blockItems, countItems, List.range'_succ, List.map_cons, List.cons_append]
  apply Produces.cons hcompleted hmiddle (test.hasPhase_item _ _ _ _)
  intro c' hsame
  exact produces_counts hnodes hrest (h.of_sameCursor hsame) 1 (by omega)

theorem completeTest_of_lastCount (test : FieldTest) (phase maxPhase : UInt8) (field : List String)
    {c : Controller} (hnodes : nodes < 2 ^ 16) (h : c.waitingConsensusNodes.card = nodes) :
    c.completeTest (test.item (.otherRound phase) maxPhase field (UInt16.ofNat nodes)) =
      (do
        let (c, nextField) ← c.maliciousTestNextField phase
        if nextField.length = 0 then
          if phase = maxPhase then return c.setNextMidTestItem none
          else
            let nextPhase ← checkedAdd8 phase 1
            let (c, nextField) ← c.maliciousTestNextField nextPhase
            return c.setNextMidTestItem (some (test.item (.otherRound nextPhase) maxPhase nextField 1))
        else return c.setNextMidTestItem (some (test.item (.otherRound phase) maxPhase nextField 1))) := by
  have hcount : (UInt16.ofNat nodes).toNat = c.waitingConsensusNodes.card := by
    rw [h, UInt16.toNat_ofNat', Nat.mod_eq_of_lt hnodes]
  rw [test.completeTest_eq, completeField, if_pos hcount]
  rfl

/-- The middle loop: the fields that are left, from the last one on. -/
theorem produces_fields (hpositive : 0 < nodes) (hnodes : nodes < 2 ^ 16) {phase : UInt8} {rest : List TestItem}
    (hrest : ∀ c field, AtPhase table maxPhase nodes phase [] c →
      Produces X isQuiet c (test.item (.otherRound phase) maxPhase field (UInt16.ofNat nodes)) rest)
    (left : List (List String)) (hleft : ∀ field ∈ left, field ≠ []) (field : List String) {c : Controller}
    (h : AtPhase table maxPhase nodes phase left c) :
    Produces X isQuiet c (test.item (.otherRound phase) maxPhase field (UInt16.ofNat nodes))
      ((left.reverse.map (phase, ·)).flatMap (blockItems test maxPhase nodes) ++ rest) := by
  induction left using List.reverseRecOn generalizing field c with
  | nil => exact hrest c field h
  | append_singleton paths next ih =>
    obtain ⟨hpaths, hnext⟩ := List.forall_mem_append.1 hleft
    have hlength : next.length ≠ 0 := fun hzero ↦
      hnext next (List.mem_singleton_self _) (List.length_eq_zero_iff.1 hzero)
    have hcompleted := completeTest_of_lastCount test phase maxPhase field hnodes h.nodes_eq
    simp only [maliciousTestNextField_of_concat h.current, bind, pure, Option.bind_some, if_neg hlength] at hcompleted
    rw [List.reverse_append, List.reverse_singleton, List.singleton_append, List.map_cons, List.flatMap_cons,
      List.append_assoc]
    apply produces_block hpositive hnodes hcompleted rfl ⟨h.nodes_eq, Finmap.lookup_insert _, ?_⟩
    · intro c' h'
      exact ih hpaths next h'
    · intro phase' hlt hle
      exact (Finmap.lookup_insert_of_ne _ (UInt8.ne_of_lt hlt).symm).trans (h.later phase' hlt hle)

/-- The fields of a number of phases, in the order in which they are tested. -/
def blocksFrom (table : UInt8 → List (List String)) (first number : ℕ) : List (UInt8 × List String) :=
  (List.range' first number).flatMap fun phase ↦
    (table (UInt8.ofNat phase)).reverse.map (UInt8.ofNat phase, ·)

variable (table maxPhase) in
/-- Every phase of the table has fields, and every field has a name. -/
structure Tabulated : Prop where
  ne_nil : ∀ phase, 1 ≤ phase → phase ≤ maxPhase → table phase ≠ []
  path_ne_nil : ∀ phase, 1 ≤ phase → phase ≤ maxPhase → ∀ field ∈ table phase, field ≠ []

/-- A phase is entered with its last field. -/
theorem produces_phase (htable : Tabulated table maxPhase) (hpositive : 0 < nodes) (hnodes : nodes < 2 ^ 16)
    {phase : UInt8} (hfirst : 1 ≤ phase) (hle : phase ≤ maxPhase) {rest : List TestItem}
    (hrest : ∀ c field, AtPhase table maxPhase nodes phase [] c →
      Produces X isQuiet c (test.item (.otherRound phase) maxPhase field (UInt16.ofNat nodes)) rest)
    {c c₁ : Controller} {item : TestItem}
    (hcompleted : c.completeTest item = do
      let (c, field) ← c₁.maliciousTestNextField phase
      return c.setNextMidTestItem (some (test.item (.otherRound phase) maxPhase field 1)))
    (h : AtPhase table maxPhase nodes phase (table phase) c₁) :
    Produces X isQuiet c item
      (((table phase).reverse.map (phase, ·)).flatMap (blockItems test maxPhase nodes) ++ rest) := by
  obtain ⟨paths, field, htail⟩ : ∃ paths field, table phase = paths ++ [field] := by
    rcases List.eq_nil_or_concat (table phase) with hnil | ⟨paths, field, hconcat⟩
    · exact absurd hnil (htable.ne_nil phase hfirst hle)
    · exact ⟨paths, field, by rw [hconcat, List.concat_eq_append]⟩
  have hpaths : ∀ path ∈ paths, path ≠ [] := by
    intro path hpath
    apply htable.path_ne_nil phase hfirst hle path
    rw [htail]
    exact List.mem_append_left _ hpath
  have hcurrent := h.current
  rw [htail] at hcurrent
  simp only [maliciousTestNextField_of_concat hcurrent, bind, pure, Option.bind_some] at hcompleted
  rw [htail, List.reverse_append, List.reverse_singleton, List.singleton_append, List.map_cons, List.flatMap_cons,
    List.append_assoc]
  apply produces_block hpositive hnodes hcompleted rfl ⟨h.nodes_eq, Finmap.lookup_insert _, ?_⟩
  · intro c' h'
    exact produces_fields hpositive hnodes hrest paths hpaths field h'
  · intro phase' hlt hle'
    exact (Finmap.lookup_insert_of_ne _ (UInt8.ne_of_lt hlt).symm).trans (h.later phase' hlt hle')

theorem toNat_ofNat_phase {phase number : ℕ} (h : phase + number = maxPhase.toNat) :
    (UInt8.ofNat phase).toNat = phase := by
  have hlt := maxPhase.toNat_lt
  rw [UInt8.toNat_ofNat', Nat.mod_eq_of_lt (by omega)]

theorem completeTest_of_lastField (test : FieldTest) {phase : UInt8} (field : List String) {c : Controller}
    (hnodes : nodes < 2 ^ 16) (h : AtPhase table maxPhase nodes phase [] c) :
    c.completeTest (test.item (.otherRound phase) maxPhase field (UInt16.ofNat nodes)) =
      if phase = maxPhase then some ({ c with fields := c.fields.erase phase }.setNextMidTestItem none)
      else do
        let nextPhase ← checkedAdd8 phase 1
        let (c, nextField) ← { c with fields := c.fields.erase phase }.maliciousTestNextField nextPhase
        return c.setNextMidTestItem (some (test.item (.otherRound nextPhase) maxPhase nextField 1)) := by
  rw [completeTest_of_lastCount test phase maxPhase field hnodes h.nodes_eq]
  simp only [maliciousTestNextField_of_nil h.current, bind, pure, Option.bind_some, List.length_nil, if_true]

/-- The outer loop: the phases after one that has no fields left. -/
theorem produces_phases (htable : Tabulated table maxPhase) (hpositive : 0 < nodes) (hnodes : nodes < 2 ^ 16)
    (number phase : ℕ) (hphase : phase + number = maxPhase.toNat) (field : List String) {c : Controller}
    (h : AtPhase table maxPhase nodes (UInt8.ofNat phase) [] c) :
    Produces X isQuiet c (test.item (.otherRound (UInt8.ofNat phase)) maxPhase field (UInt16.ofNat nodes))
      ((blocksFrom table (phase + 1) number).flatMap (blockItems test maxPhase nodes)) := by
  induction number generalizing phase field c with
  | zero =>
    have hvalue := toNat_ofNat_phase hphase
    have hlast : UInt8.ofNat phase = maxPhase := UInt8.toNat_inj.1 (by rw [hvalue]; exact hphase)
    have hcompleted := completeTest_of_lastField test field hnodes h
    rw [if_pos hlast] at hcompleted
    exact Produces.last hcompleted rfl
  | succ number ih =>
    have hvalue := toNat_ofNat_phase hphase
    have hnext : phase + 1 + number = maxPhase.toNat := by omega
    have hvalue' := toNat_ofNat_phase hnext
    have hne : UInt8.ofNat phase ≠ maxPhase := by
      intro heq
      rw [← heq, hvalue] at hphase
      omega
    have hsucc : checkedAdd8 (UInt8.ofNat phase) 1 = some (UInt8.ofNat (phase + 1)) := by
      rw [checkedAdd8_eq_some_iff, hvalue, hvalue']
      rfl
    have hlt : UInt8.ofNat phase < UInt8.ofNat (phase + 1) := by
      rw [UInt8.lt_iff_toNat_lt, hvalue, hvalue']
      exact Nat.lt_succ_self _
    have hle : UInt8.ofNat (phase + 1) ≤ maxPhase := by
      rw [UInt8.le_iff_toNat_le, hvalue']
      omega
    have hone : (1 : UInt8) ≤ UInt8.ofNat (phase + 1) := by
      rw [UInt8.le_iff_toNat_le, hvalue']
      exact Nat.le_add_left _ _
    have hcompleted := completeTest_of_lastField test field hnodes h
    rw [if_neg hne] at hcompleted
    simp only [hsucc, bind, Option.bind_some] at hcompleted
    rw [blocksFrom, List.range'_succ, List.flatMap_cons, List.flatMap_append]
    refine produces_phase htable hpositive hnodes hone hle ?_ hcompleted ⟨h.nodes_eq, ?_, ?_⟩
    · intro c' field' h'
      exact ih (phase + 1) hnext field' h'
    · rw [Finmap.lookup_erase_ne (UInt8.ne_of_lt hlt).symm]
      exact h.later _ hlt hle
    · intro phase' hlt' hle'
      have hafter := UInt8.lt_trans hlt hlt'
      rw [Finmap.lookup_erase_ne (UInt8.ne_of_lt hafter).symm]
      exact h.later _ hafter hle'

/-- All middle items, in the order of the phases. -/
def allItems (test : FieldTest) (table : UInt8 → List (List String)) (maxPhase : UInt8) (nodes : ℕ) :
    List TestItem :=
  (blocksFrom table 1 maxPhase.toNat).flatMap (blockItems test maxPhase nodes)

/-- The three loops from the first round on. -/
theorem produces_allItems (test : FieldTest) (htable : Tabulated table maxPhase) (hphase : 1 ≤ maxPhase)
    (hpositive : 0 < nodes) (hnodes : nodes < 2 ^ 16) {c : Controller} (hcard : c.waitingConsensusNodes.card = nodes)
    (hfields : ∀ phase, 1 ≤ phase → phase ≤ maxPhase → c.fields.lookup phase = some (table phase))
    (field : List String) (count : UInt16) :
    Produces X isQuiet c (test.item .firstRound maxPhase field count) (allItems test table maxPhase nodes) := by
  have hle : 1 ≤ maxPhase.toNat := UInt8.le_iff_toNat_le.1 hphase
  obtain ⟨number, hnumber⟩ : ∃ number, maxPhase.toNat = number + 1 := ⟨maxPhase.toNat - 1, by omega⟩
  rw [allItems, hnumber, blocksFrom, List.range'_succ, List.flatMap_cons, List.flatMap_append]
  refine produces_phase htable hpositive hnodes (UInt8.le_refl 1) hphase ?_
    (completeTest_firstRound test hphase field count c) ⟨hcard, ?_, ?_⟩
  · intro c' field' h'
    exact produces_phases htable hpositive hnodes number 1 (by omega) field' h'
  · exact hfields 1 (UInt8.le_refl 1) hphase
  · intro phase' hlt hle'
    exact hfields phase' (UInt8.le_of_lt hlt) hle'

/-! ## What the middle items cover -/

theorem mem_blocksFrom {block : UInt8 × List String} :
    block ∈ blocksFrom table 1 maxPhase.toNat ↔ 1 ≤ block.1 ∧ block.1 ≤ maxPhase ∧ block.2 ∈ table block.1 := by
  have hlt := maxPhase.toNat_lt
  simp only [blocksFrom, List.mem_flatMap, List.mem_range'_1, List.mem_map, List.mem_reverse]
  constructor
  · rintro ⟨phase, hrange, field, hfield, rfl⟩
    have hvalue : (UInt8.ofNat phase).toNat = phase := by
      rw [UInt8.toNat_ofNat', Nat.mod_eq_of_lt (by omega)]
    refine ⟨?_, ?_, hfield⟩
    · rw [UInt8.le_iff_toNat_le, hvalue]
      exact hrange.1
    · rw [UInt8.le_iff_toNat_le, hvalue]
      omega
  · rintro ⟨hfirst, hle, hfield⟩
    have hfirst' := UInt8.le_iff_toNat_le.1 hfirst
    have hle' := UInt8.le_iff_toNat_le.1 hle
    refine ⟨block.1.toNat, ⟨hfirst', by omega⟩, block.2, ?_, ?_⟩
    · rwa [UInt8.ofNat_toNat]
    · rw [UInt8.ofNat_toNat]

theorem pairwise_blocksFrom (hdistinct : ∀ phase, 1 ≤ phase → phase ≤ maxPhase → (table phase).Nodup) :
    (blocksFrom table 1 maxPhase.toNat).Nodup ∧
      (blocksFrom table 1 maxPhase.toNat).Pairwise fun block block' ↦ block.1 ≤ block'.1 := by
  have hlt := maxPhase.toNat_lt
  have hvalue {phase : ℕ} (h : phase ∈ List.range' 1 maxPhase.toNat) : (UInt8.ofNat phase).toNat = phase := by
    have := List.mem_range'_1.1 h
    rw [UInt8.toNat_ofNat', Nat.mod_eq_of_lt (by omega)]
  -- blocks of different phases are ordered by their phases
  have hrange : (List.range' 1 maxPhase.toNat).Pairwise fun phase phase' ↦
      UInt8.ofNat phase < UInt8.ofNat phase' := by
    apply (List.pairwise_lt_range' 1).imp_of_mem
    intro phase phase' hmem hmem' hlt
    rwa [UInt8.lt_iff_toNat_lt, hvalue hmem, hvalue hmem']
  constructor
  · apply List.nodup_flatMap.2 ⟨?_, hrange.imp ?_⟩
    · intro phase hmem
      have hbounds := List.mem_range'_1.1 hmem
      refine ((List.nodup_reverse.2 (hdistinct _ ?_ ?_)).map fun _ _ heq ↦ (Prod.mk.inj heq).2)
      · rw [UInt8.le_iff_toNat_le, hvalue hmem]
        exact hbounds.1
      · rw [UInt8.le_iff_toNat_le, hvalue hmem]
        omega
    · intro phase phase' hlt block hmem hmem'
      obtain ⟨field, -, rfl⟩ := List.mem_map.1 hmem
      obtain ⟨field', -, heq⟩ := List.mem_map.1 hmem'
      exact UInt8.ne_of_lt hlt (Prod.mk.inj heq).1.symm
  · apply List.pairwise_flatMap.2 ⟨?_, hrange.imp ?_⟩
    · intro phase _
      apply List.pairwise_map.2
      exact List.pairwise_of_forall fun _ _ ↦ UInt8.le_refl _
    · intro phase phase' hlt block hmem block' hmem'
      obtain ⟨field, -, rfl⟩ := List.mem_map.1 hmem
      obtain ⟨field', -, rfl⟩ := List.mem_map.1 hmem'
      exact UInt8.le_of_lt hlt

theorem mem_blockItems (hnodes : nodes < 2 ^ 16) {block : UInt8 × List String} {item : TestItem} :
    item ∈ blockItems test maxPhase nodes block ↔ ∃ count : UInt16, 1 ≤ count.toNat ∧ count.toNat ≤ nodes ∧
      item = test.item (.otherRound block.1) maxPhase block.2 count := by
  simp only [blockItems, countItems, List.mem_map, List.mem_range'_1]
  constructor
  · rintro ⟨count, hrange, rfl⟩
    have hvalue : (UInt16.ofNat count).toNat = count := by
      rw [UInt16.toNat_ofNat', Nat.mod_eq_of_lt (by omega)]
    exact ⟨UInt16.ofNat count, by omega, by omega, rfl⟩
  · rintro ⟨count, hfirst, hle, rfl⟩
    exact ⟨count.toNat, ⟨hfirst, by omega⟩, by rw [UInt16.ofNat_toNat]⟩

theorem nodup_blockItems (hnodes : nodes < 2 ^ 16) (block : UInt8 × List String) :
    (blockItems test maxPhase nodes block).Nodup := by
  apply (List.nodup_range' (s := 1) (n := nodes)).map_on
  intro count hmem count' hmem' heq
  have hrange := List.mem_range'_1.1 hmem
  have hrange' := List.mem_range'_1.1 hmem'
  have hcount := congrArg UInt16.toNat (FieldTest.item_inj heq).2.2
  rwa [UInt16.toNat_ofNat', UInt16.toNat_ofNat', Nat.mod_eq_of_lt (by omega), Nat.mod_eq_of_lt (by omega)] at hcount

variable (test table maxPhase nodes) in
/-- Every phase is tested with each of its fields and each number of nodes, exactly once and nothing else. The
items come in blocks, one for each field, in which the number of nodes goes from one to all of them; the
phases of the blocks do not decrease. -/
structure Covers (items : List TestItem) : Prop where
  nodup : items.Nodup
  mem_iff : ∀ item, item ∈ items ↔ ∃ phase field, ∃ count : UInt16, (1 ≤ phase ∧ phase ≤ maxPhase) ∧
    field ∈ table phase ∧ (1 ≤ count.toNat ∧ count.toNat ≤ nodes) ∧
    item = test.item (.otherRound phase) maxPhase field count
  ordered : ∃ blocks : List (UInt8 × List String), blocks.Pairwise (·.1 ≤ ·.1) ∧
    items = blocks.flatMap (blockItems test maxPhase nodes)

theorem covers_allItems (hnodes : nodes < 2 ^ 16)
    (hdistinct : ∀ phase, 1 ≤ phase → phase ≤ maxPhase → (table phase).Nodup) :
    Covers test table maxPhase nodes (allItems test table maxPhase nodes) where
  nodup := by
    refine List.nodup_flatMap.2 ⟨fun block _ ↦ nodup_blockItems hnodes block, ?_⟩
    apply (pairwise_blocksFrom hdistinct).1.imp
    intro block block' hne item hmem hmem'
    obtain ⟨count, -, -, rfl⟩ := (mem_blockItems hnodes).1 hmem
    obtain ⟨count', -, -, heq⟩ := (mem_blockItems hnodes).1 hmem'
    obtain ⟨hphase, hfield, -⟩ := FieldTest.item_inj heq
    exact hne (Prod.ext hphase hfield)
  mem_iff item := by
    simp only [allItems, List.mem_flatMap, mem_blocksFrom, mem_blockItems hnodes]
    constructor
    · rintro ⟨⟨phase, field⟩, ⟨hfirst, hle, hfield⟩, count, hcount, hcount', rfl⟩
      exact ⟨phase, field, count, ⟨hfirst, hle⟩, hfield, ⟨hcount, hcount'⟩, rfl⟩
    · rintro ⟨phase, field, count, ⟨hfirst, hle⟩, hfield, ⟨hcount, hcount'⟩, rfl⟩
      exact ⟨(phase, field), ⟨hfirst, hle, hfield⟩, count, hcount, hcount', rfl⟩
  ordered := ⟨_, (pairwise_blocksFrom hdistinct).2, rfl⟩

variable (table maxPhase) in
/-- The table of fields of a controller: distinct fields for each phase, and each with a name. -/
structure FieldTable (c : Controller) : Prop where
  lookup_eq : ∀ phase, 1 ≤ phase → phase ≤ maxPhase → c.fields.lookup phase = some (table phase)
  distinct : ∀ phase, 1 ≤ phase → phase ≤ maxPhase → (table phase).Nodup
  tabulated : Tabulated table maxPhase

/-- Completing the first round and then every middle item covers everything that the table has, and nothing
panics. -/
theorem exists_produces_covers {c : Controller} (hphase : 1 ≤ maxPhase) (htable : FieldTable table maxPhase c)
    (hpositive : 1 ≤ c.waitingConsensusNodes.card) (hcard : c.waitingConsensusNodes.card ≤ 65535)
    (field : List String) (count : UInt16) :
    ∃ items, Produces X isQuiet c (test.item .firstRound maxPhase field count) items ∧
      Covers test table maxPhase c.waitingConsensusNodes.card items := by
  have hnodes : c.waitingConsensusNodes.card < 2 ^ 16 := Nat.lt_succ_of_le hcard
  refine ⟨allItems test table maxPhase c.waitingConsensusNodes.card, ?_, covers_allItems hnodes htable.distinct⟩
  exact produces_allItems test htable.tabulated hphase hpositive hnodes rfl htable.lookup_eq field count

end Loops

/-- Two phases with two and one fields. -/
def twoPhaseTable (phase : UInt8) : List (List String) :=
  if phase = 1 then [["view"], ["block", "hash"]] else [["signature"]]

/-- A controller with two nodes that knows these fields. -/
def twoPhaseController : Controller :=
  { fresh with
    waitingConsensusNodes := {[1], [2]}
    fields := ((∅ : HashMap UInt8 (List (List String))).insert 1 (twoPhaseTable 1)).insert 2 (twoPhaseTable 2) }

theorem phase_cases {phase : UInt8} (hfirst : 1 ≤ phase) (hle : phase ≤ 2) : phase = 1 ∨ phase = 2 := by
  have hfirst' : 1 ≤ phase.toNat := UInt8.le_iff_toNat_le.1 hfirst
  have hle' : phase.toNat ≤ 2 := UInt8.le_iff_toNat_le.1 hle
  rcases (show phase.toNat = 1 ∨ phase.toNat = 2 by omega) with hone | htwo
  · exact .inl (UInt8.toNat_inj.1 hone)
  · exact .inr (UInt8.toNat_inj.1 htwo)

theorem fieldTable_twoPhaseController : FieldTable twoPhaseTable 2 twoPhaseController where
  lookup_eq phase hfirst hle := by
    rcases phase_cases hfirst hle with rfl | rfl <;> decide
  distinct phase hfirst hle := by
    rcases phase_cases hfirst hle with rfl | rfl <;> decide
  tabulated := by
    constructor
    · intro phase hfirst hle
      rcases phase_cases hfirst hle with rfl | rfl <;> decide
    · intro phase hfirst hle
      rcases phase_cases hfirst hle with rfl | rfl <;> decide

theorem exists_produces_covers_twoPhaseController :
    ∃ items, Produces Externals.transparent isQuiet twoPhaseController
        (FieldTest.ambiguous.item .firstRound 2 [] 0) items ∧
      Covers FieldTest.ambiguous twoPhaseTable 2 2 items :=
  exists_produces_covers (by decide) fieldTable_twoPhaseController (by decide) (by decide) [] 0

/-! ## One table for two behaviours -/

variable (X) in
/-- Answering the item and then every middle item with `CompletedTest` has made these middle items pending
and has led to the last controller. -/
inductive Generates : Controller → TestItem → List TestItem → Controller → Prop
  | last {c c' final : Controller} {item : TestItem} {walk : Walk PeerId} {actions : List Action} {run : Run}
      (completed : c.analyzerMessageHandler X walk (.completedTest item) = some (c', actions))
      (middle : c'.nextMidTestItem = none) (between : IsRun (step X) c' run final)
      (quiet : ∀ t ∈ run, isQuiet t.event.input = true) : Generates c item [] final
  | cons {c c' c'' final : Controller} {item next : TestItem} {items : List TestItem} {walk : Walk PeerId}
      {actions : List Action} {run : Run}
      (completed : c.analyzerMessageHandler X walk (.completedTest item) = some (c', actions))
      (middle : c'.nextMidTestItem = some next) (between : IsRun (step X) c' run c'')
      (quiet : ∀ t ∈ run, isQuiet t.event.input = true) (rest : Generates c'' next items final) :
      Generates c item (next :: items) final

theorem exists_generates {c : Controller} {item : TestItem} {items : List TestItem}
    (h : Produces X isQuiet c item items) : ∃ final, Generates X c item items final := by
  induction items generalizing c item with
  | nil =>
    obtain ⟨c', actions, hcompleted, hmiddle⟩ := h (Walk.ofKey Bytes.key Bytes.key_injective)
    exact ⟨c', .last hcompleted hmiddle .nil (List.forall_mem_nil _)⟩
  | cons next items ih =>
    obtain ⟨c', actions, hcompleted, hmiddle, hrest⟩ := h (Walk.ofKey Bytes.key Bytes.key_injective)
    obtain ⟨final, hfinal⟩ := ih (hrest [] c' .nil (List.forall_mem_nil _))
    exact ⟨final, .cons hcompleted hmiddle .nil (List.forall_mem_nil _) hfinal⟩

/-- The fields that are left for a phase have names. -/
def FieldsNamed (c : Controller) (phase : UInt8) : Prop :=
  ∀ paths ∈ c.fields.lookup phase, ∀ path ∈ paths, path ≠ []

/-- The first phase is being tested, or its fields are gone. -/
def Consuming (test : FieldTest) (maxPhase : UInt8) (c : Controller) : Option TestItem → Prop
  | some item => ∃ phase field count, item = test.item (.otherRound phase) maxPhase field count ∧
      (phase = 1 ∧ c.FieldsNamed 1 ∨ 1 < phase ∧ c.fields.lookup 1 = none)
  | none => c.fields.lookup 1 = none

theorem Consuming.of_sameCursor {test : FieldTest} {maxPhase : UInt8} {c c' : Controller}
    {item : Option TestItem} (h : Consuming test maxPhase c item) (hsame : SameCursor c c') :
    Consuming test maxPhase c' item := by
  unfold Consuming FieldsNamed at h ⊢
  rw [hsame.fields]
  exact h

theorem maliciousTestNextField_spec {c c' : Controller} {phase : UInt8} {field : List String}
    (h : c.maliciousTestNextField phase = some (c', field)) :
    (∀ other ≠ phase, c'.fields.lookup other = c.fields.lookup other) ∧
      (c.FieldsNamed phase → c'.FieldsNamed phase ∧ (field = [] → c'.fields.lookup phase = none)) := by
  obtain ⟨fieldVec, hlookup, hresult⟩ := Option.bind_eq_some_iff.1 h
  rcases List.eq_nil_or_concat fieldVec with rfl | ⟨paths, last, hconcat⟩
  · rw [maliciousTestNextField_of_nil hlookup] at h
    obtain ⟨rfl, rfl⟩ := Prod.mk.inj (Option.some.inj h)
    refine ⟨fun other hother ↦ Finmap.lookup_erase_ne hother, fun _ ↦ ⟨?_, fun _ ↦ Finmap.lookup_erase _ _⟩⟩
    intro paths hpaths
    rw [Finmap.lookup_erase] at hpaths
    cases hpaths
  · rw [List.concat_eq_append] at hconcat
    rw [hconcat] at hlookup
    rw [maliciousTestNextField_of_concat hlookup] at h
    obtain ⟨rfl, rfl⟩ := Prod.mk.inj (Option.some.inj h)
    refine ⟨fun other hother ↦ Finmap.lookup_insert_of_ne _ hother, fun hnamed ↦ ⟨?_, ?_⟩⟩
    · intro paths' hpaths'
      rw [Finmap.lookup_insert] at hpaths'
      obtain rfl := Option.some.inj hpaths'
      exact fun path hpath ↦ hnamed _ hlookup path (List.mem_append_left _ hpath)
    · intro hnil
      exact absurd hnil (hnamed _ hlookup _ (List.mem_append_right _ (List.mem_singleton_self _)))

/-- Completing a middle item goes on with the first phase until its fields are gone. -/
theorem Consuming.completeTest {test : FieldTest} {maxPhase : UInt8} {c c₁ : Controller} {item : TestItem}
    (h : Consuming test maxPhase c (some item)) (hcompleted : c.completeTest item = some c₁) :
    Consuming test maxPhase c₁ c₁.nextMidTestItem := by
  obtain ⟨phase, field, count, rfl, hphase⟩ := h
  rw [test.completeTest_eq, completeField] at hcompleted
  dsimp only at hcompleted
  split at hcompleted
  case isFalse =>
    obtain ⟨next, -, hresult⟩ := Option.bind_eq_some_iff.1 hcompleted
    obtain rfl := Option.some.inj hresult
    exact ⟨phase, field, next, rfl, hphase⟩
  case isTrue =>
    obtain ⟨⟨c₂, nextField⟩, hnext, hresult⟩ := Option.bind_eq_some_iff.1 hcompleted
    obtain ⟨hframe, hnamed⟩ := maliciousTestNextField_spec hnext
    dsimp only at hresult
    split at hresult
    case isFalse =>
      obtain rfl := Option.some.inj hresult
      refine ⟨phase, nextField, 1, rfl, ?_⟩
      rcases hphase with ⟨rfl, hfirst⟩ | ⟨hlt, hgone⟩
      · exact .inl ⟨rfl, (hnamed hfirst).1⟩
      · exact .inr ⟨hlt, (hframe 1 (UInt8.ne_of_lt hlt)).trans hgone⟩
    case isTrue hlength =>
      -- the fields of the first phase are gone, now or before
      have hgone : c₂.fields.lookup 1 = none := by
        rcases hphase with ⟨rfl, hfirst⟩ | ⟨hlt, hgone⟩
        · exact (hnamed hfirst).2 (List.length_eq_zero_iff.1 hlength)
        · exact (hframe 1 (UInt8.ne_of_lt hlt)).trans hgone
      split at hresult
      case isTrue =>
        obtain rfl := Option.some.inj hresult
        exact hgone
      case isFalse =>
        obtain ⟨nextPhase, hadd, hrest⟩ := Option.bind_eq_some_iff.1 hresult
        obtain ⟨⟨c₃, firstField⟩, hfirstField, hlast⟩ := Option.bind_eq_some_iff.1 hrest
        obtain rfl := Option.some.inj hlast
        have hvalue : nextPhase.toNat = phase.toNat + 1 := checkedAdd8_eq_some_iff.1 hadd
        have hlt : 1 < nextPhase := by
          have hpositive : 1 ≤ phase.toNat := by
            rcases hphase with ⟨rfl, -⟩ | ⟨hlt, -⟩
            · exact Nat.le_refl 1
            · exact Nat.le_of_lt (UInt8.lt_iff_toNat_lt.1 hlt)
          rw [UInt8.lt_iff_toNat_lt, hvalue]
          exact Nat.lt_succ_of_le hpositive
        refine ⟨nextPhase, firstField, 1, rfl, .inr ⟨hlt, ?_⟩⟩
        exact ((maliciousTestNextField_spec hfirstField).1 1 (UInt8.ne_of_lt hlt)).trans hgone

theorem Generates.lookup_eq_none {c final : Controller} {item : TestItem} {items : List TestItem}
    (hgenerates : Generates X c item items final) (test : FieldTest) (maxPhase : UInt8)
    (h : ∀ c₁, c.completeTest item = some c₁ → Consuming test maxPhase c₁ c₁.nextMidTestItem) :
    final.fields.lookup 1 = none := by
  induction hgenerates with
  | last completed middle between quiet =>
    obtain ⟨c₁, hcompleted, hsame⟩ := completedTest_spec completed
    have hconsuming := (h c₁ hcompleted).of_sameCursor (hsame.trans (sameCursor_of_isRun between quiet))
    rw [← hsame.middle, middle] at hconsuming
    exact hconsuming
  | cons completed middle between quiet rest ih =>
    obtain ⟨c₁, hcompleted, hsame⟩ := completedTest_spec completed
    have hconsuming := (h c₁ hcompleted).of_sameCursor (hsame.trans (sameCursor_of_isRun between quiet))
    rw [← hsame.middle, middle] at hconsuming
    exact ih fun c₂ hnext ↦ hconsuming.completeTest hnext

/-- Before the number of nodes has reached all of them, it is increased. -/
theorem exists_next_of_produces {test : FieldTest} {phase maxPhase : UInt8} {field : List String}
    {items : List TestItem} {c : Controller} {count : UInt16}
    (hcount : ¬ count.toNat = c.waitingConsensusNodes.card)
    (h : Produces X isQuiet c (test.item (.otherRound phase) maxPhase field count) items) :
    ∃ (next : UInt16) (c' : Controller) (rest : List TestItem), next.toNat = count.toNat + 1 ∧
      c'.waitingConsensusNodes = c.waitingConsensusNodes ∧
      items = test.item (.otherRound phase) maxPhase field next :: rest ∧
      Produces X isQuiet c' (test.item (.otherRound phase) maxPhase field next) rest := by
  obtain ⟨c₁, c', hcompleted, hsame, hhead, hrest⟩ := h.exists_completed
  rw [test.completeTest_eq, completeField, if_neg hcount] at hcompleted
  obtain ⟨next, hadd, hresult⟩ := Option.bind_eq_some_iff.1 hcompleted
  obtain rfl := Option.some.inj hresult
  obtain ⟨rest, hitems⟩ := List.head?_eq_some_iff.1 hhead.symm
  exact ⟨next, c', rest, checkedAdd16_eq_some_iff.1 hadd, hsame.waiting, hitems, hrest _ rest hitems⟩

/-- Without nodes, or with more than a counter can reach, the middle items do not end. -/
theorem card_of_produces {test : FieldTest} {phase maxPhase : UInt8} {field : List String} {items : List TestItem}
    {c : Controller} {count : UInt16} (hpositive : 1 ≤ count.toNat)
    (h : Produces X isQuiet c (test.item (.otherRound phase) maxPhase field count) items) :
    1 ≤ c.waitingConsensusNodes.card ∧ c.waitingConsensusNodes.card < 2 ^ 16 := by
  induction items generalizing c count with
  | nil =>
    by_contra hcard
    have hcount : ¬ count.toNat = c.waitingConsensusNodes.card := fun heq ↦
      hcard (heq ▸ ⟨hpositive, count.toNat_lt⟩)
    obtain ⟨next, c', rest, -, -, hnil, -⟩ := exists_next_of_produces hcount h
    cases hnil
  | cons item items ih =>
    by_cases hcount : count.toNat = c.waitingConsensusNodes.card
    · rw [← hcount]
      exact ⟨hpositive, count.toNat_lt⟩
    · obtain ⟨next, c', rest, hnext, hwaiting, hitems, hrest⟩ := exists_next_of_produces hcount h
      obtain ⟨-, rfl⟩ := List.cons.inj hitems
      rw [← hwaiting]
      exact ih (by omega) hrest

variable (X) in
/-- Every phase has reported a message that has fields. -/
def FieldsReported (c : Controller) (numberOfPhase : UInt8) : Prop :=
  ∀ phase, 1 ≤ phase → phase ≤ numberOfPhase → ∃ msg map, X.parseObject msg = some map ∧
    (mapIntoStringTree (toString phase.toNat) map).2 ≠ [] ∧
    c.fields.lookup phase = some (mapIntoStringTree (toString phase.toNat) map).2

variable (X) in
/-- The second of two behaviours has the same middle items whether the first one has been tested before it
or not. -/
def Undisturbed (c : Controller) (first second : FieldTest) (numberOfPhase : UInt8) : Prop :=
  ∃ items, Produces X isQuiet c (second.item .firstRound numberOfPhase [] 0) items ∧
    ∀ earlier c', Generates X c (first.item .firstRound numberOfPhase [] 0) earlier c' →
      Produces X isQuiet c' (second.item .firstRound numberOfPhase [] 0) items

theorem FieldsReported.tabulated {c : Controller} {numberOfPhase : UInt8} (h : FieldsReported X c numberOfPhase) :
    ∃ table, Tabulated table numberOfPhase ∧
      ∀ phase, 1 ≤ phase → phase ≤ numberOfPhase → c.fields.lookup phase = some (table phase) := by
  have hlookup : ∀ phase, 1 ≤ phase → phase ≤ numberOfPhase →
      c.fields.lookup phase = some ((c.fields.lookup phase).getD []) := by
    intro phase hfirst hle
    obtain ⟨msg, map, -, -, hlookup⟩ := h phase hfirst hle
    rw [hlookup]
    rfl
  refine ⟨fun phase ↦ (c.fields.lookup phase).getD [], ⟨?_, ?_⟩, hlookup⟩
  · intro phase hfirst hle
    obtain ⟨msg, map, -, hne, hlookup⟩ := h phase hfirst hle
    rw [hlookup]
    exact hne
  · intro phase hfirst hle
    obtain ⟨msg, map, -, -, hlookup⟩ := h phase hfirst hle
    rw [hlookup]
    exact ne_nil_of_mem_mapIntoStringTree _ map

/-- The items of the second behaviour alone show that there are nodes to test with. -/
theorem card_of_produces_firstRound {test : FieldTest} {maxPhase : UInt8} (hphase : 1 ≤ maxPhase)
    {items : List TestItem} {c : Controller}
    (h : Produces X isQuiet c (test.item .firstRound maxPhase [] 0) items) :
    1 ≤ c.waitingConsensusNodes.card ∧ c.waitingConsensusNodes.card < 2 ^ 16 := by
  obtain ⟨c₁, c', hcompleted, hsame, hhead, hrest⟩ := h.exists_completed
  rw [completeTest_firstRound test hphase [] 0] at hcompleted
  obtain ⟨⟨c₂, field⟩, hfield, hresult⟩ := Option.bind_eq_some_iff.1 hcompleted
  obtain ⟨fieldVec, -, hpopped⟩ := Option.bind_eq_some_iff.1 hfield
  have hwaiting : c₂.waitingConsensusNodes = c.waitingConsensusNodes := by
    split at hpopped <;> obtain ⟨rfl, -⟩ := Prod.mk.inj (Option.some.inj hpopped) <;> rfl
  obtain rfl := Option.some.inj hresult
  obtain ⟨rest, hitems⟩ := List.head?_eq_some_iff.1 hhead.symm
  have hone : 1 ≤ (1 : UInt16).toNat := by decide
  rw [← hwaiting, ← show c'.waitingConsensusNodes = c₂.waitingConsensusNodes from hsame.waiting]
  exact card_of_produces hone (hrest _ rest hitems)

/-- The first behaviour uses up the table. -/
theorem not_undisturbed {c : Controller} {first second : FieldTest} {numberOfPhase : UInt8}
    (hphase : 1 ≤ numberOfPhase) (hreported : FieldsReported X c numberOfPhase) :
    ¬ Undisturbed X c first second numberOfPhase := by
  rintro ⟨items, halone, hsecond⟩
  obtain ⟨hpositive, hnodes⟩ := card_of_produces_firstRound hphase halone
  obtain ⟨table, htable, hlookup⟩ := hreported.tabulated
  obtain ⟨c', hgenerates⟩ := exists_generates
    (produces_allItems (X := X) first htable hphase hpositive hnodes rfl hlookup [] 0)
  have hgone : c'.fields.lookup 1 = none := by
    apply hgenerates.lookup_eq_none first numberOfPhase
    intro c₁ hcompleted
    rw [completeTest_firstRound first hphase] at hcompleted
    obtain ⟨⟨c₂, field⟩, hfield, hresult⟩ := Option.bind_eq_some_iff.1 hcompleted
    obtain rfl := Option.some.inj hresult
    have hnamed : c.FieldsNamed 1 := by
      intro paths hpaths
      rw [hlookup 1 (UInt8.le_refl 1) hphase] at hpaths
      obtain rfl := Option.some.inj hpaths
      exact htable.path_ne_nil 1 (UInt8.le_refl 1) hphase
    exact ⟨1, field, 1, rfl, .inl ⟨rfl, ((maliciousTestNextField_spec hfield).2 hnamed).1⟩⟩
  have hpanics : c'.completeTest (second.item .firstRound numberOfPhase [] 0) = none := by
    rw [completeTest_firstRound second hphase, maliciousTestNextField, hgone]
    rfl
  obtain ⟨c₁, -, hcompleted, -⟩ := (hsecond _ c' hgenerates).exists_completed
  cases hpanics.symm.trans hcompleted

/-- Two behaviours that are driven by the table do not disturb each other only if there is nothing to test. -/
theorem undisturbed_iff {c : Controller} {first second : FieldTest} {numberOfPhase : UInt8}
    (h : FieldsReported X c numberOfPhase) : Undisturbed X c first second numberOfPhase ↔ numberOfPhase = 0 := by
  constructor
  · intro hundisturbed
    by_contra hne
    have hphase : 1 ≤ numberOfPhase := by
      rw [UInt8.le_iff_toNat_le]
      exact Nat.one_le_iff_ne_zero.2 fun hzero ↦ hne (UInt8.toNat_inj.1 hzero)
    exact not_undisturbed hphase h hundisturbed
  · rintro rfl
    have hlast (c : Controller) : Produces X isQuiet c (second.item .firstRound 0 [] 0) [] := by
      have hcompleted : c.completeTest (second.item .firstRound 0 [] 0) = some (c.setNextMidTestItem none) := by
        rw [second.completeTest_eq]
        rfl
      exact Produces.last hcompleted rfl
    exact ⟨[], hlast c, fun _ c' _ ↦ hlast c'⟩

theorem phase_eq_one {phase : UInt8} (hfirst : 1 ≤ phase) (hle : phase ≤ 1) : phase = 1 := by
  have hfirst' := UInt8.le_iff_toNat_le.1 hfirst
  have hle' := UInt8.le_iff_toNat_le.1 hle
  exact UInt8.toNat_inj.1 (Nat.le_antisymm hle' hfirst')

/-- One phase, in which both behaviours are tested. -/
def bothConfig : BFTDiagnosisConfig where
  throughput := none
  latency := none
  scalability := none
  crash := none
  malicious := some ⟨some true, some 1, some ["LeaderSendAmbiguousMessage", "ReplicaNodeConspireForgeMessages"]⟩

/-- A node is discovered and reports its only phase message. -/
def reportEvents : List Event :=
  [(Input.discovered [[1]]).sorted, (Input.unicast [1] (.consensusPhase 1 [])).sorted]

def reportedController : Controller := final (step Externals.transparent) (freshWith bothConfig) reportEvents

theorem fieldsReported_reportedController : FieldsReported Externals.transparent reportedController 1 := by
  intro phase hfirst hle
  obtain rfl := phase_eq_one hfirst hle
  exact ⟨[], [("view", .number 0)], rfl, by decide, by decide⟩

theorem undisturbed_iff_reportedController : FieldsReported Externals.transparent reportedController 1 ∧
    (Undisturbed Externals.transparent reportedController .conspire .ambiguous 1 ↔ (1 : UInt8) = 0) :=
  ⟨fieldsReported_reportedController, undisturbed_iff fieldsReported_reportedController⟩

/-- After the ambiguous messages the conspiring replicas find no fields. -/
theorem not_undisturbed_bothConfig :
    Configuration bothConfig (freshWith bothConfig) ∧
      (freshWith bothConfig).testItems.reverse =
        [FieldTest.ambiguous.item .firstRound 1 [] 0, FieldTest.conspire.item .firstRound 1 [] 0] ∧
      IsRun (step Externals.transparent) (freshWith bothConfig)
        (transitions (step Externals.transparent) (freshWith bothConfig) reportEvents) reportedController ∧
      FieldsReported Externals.transparent reportedController 1 ∧
      ¬ Undisturbed Externals.transparent reportedController .ambiguous .conspire 1 :=
  ⟨configuration_freshWith (by decide), by decide, IsRun.of_isSome (by decide), fieldsReported_reportedController,
    not_undisturbed (UInt8.le_refl 1) fieldsReported_reportedController⟩

end BFTDiagnosis.Controller
