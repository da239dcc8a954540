import Datapath.Proofs.Deepening
import Datapath.Proofs.Outcomes
import Datapath.Proofs.TreeDepths

/-!
# Depths of generated adders

Half adders make both signals of every position one deep. Joining two groups whose signals are
equally deep makes both signals one deeper than the deeper group, so the groups of a tree become as
deep as `Topology.groupDepth` says, and each sum bit but the lowest is one deeper than the group
below it. The deepest signal of an adder without registers is its highest sum bit, as the group
below that is the critical one: `unregistered_depth`.
-/

namespace Datapath

/-- The provider has every gate of a prefix tree. -/
def Provider.HasTreeGates (provider : Provider) : Prop :=
  ∀ primitive ∈ [Primitive.halfAdder, .and2, .ao21, .xor2], (provider.realize primitive).isSome

namespace Adder

open Build (Deepens)
open Combination (deepen deepenRows)

variable {provider : CompleteProvider} {depth : SignalId → Nat} {width : Nat}

/-- The depths of a group's signals. -/
def Group.depths (depth : SignalId → Nat) (group : Group) : Nat × Nat :=
  (depth group.propagate, depth group.generate)

/-- Both signals of the group at each position are as deep as told. -/
structure Levelled (depth : SignalId → Nat) (width : Nat) (levelOf : Nat → Nat)
    (groups : Array Group) : Prop where
  size : groups.size = width
  depths : ∀ position group, groups[position]? = some group →
    group.depths depth = (levelOf position, levelOf position)

theorem Levelled.exists_group {levelOf : Nat → Nat} {groups : Array Group}
    (levelled : Levelled depth width levelOf groups) {position : Nat} (inside : position < width) :
    ∃ group, groups[position]? = some group ∧
      group.depths depth = (levelOf position, levelOf position) := by
  have found := Array.getElem?_eq_getElem (Nat.lt_of_lt_of_eq inside levelled.size.symm)
  exact ⟨_, found, levelled.depths position _ found⟩

theorem bitGroup_deepens (native : (provider.realize .halfAdder).isSome) (left right : SignalId) :
    Deepens provider (bitGroup left right) fun depth reached group =>
      let level := 1 + max (depth left) (depth right)
      group.depths depth = (level, level) ∧ reached ≤ level := by
  refine (Build.halfAdder_deepens left right native).bind fun adder => Build.deepens_pure ?_
  rintro depth reached ⟨⟨isSum, isCarry⟩, le⟩
  exact ⟨Prod.ext isSum isCarry, Nat.max_le.mpr ⟨le, Nat.zero_le _⟩⟩

/-- A group of two groups whose signals are equally deep is one level above the deeper of them. -/
theorem joinGroups_deepens (native : (provider.realize .ao21).isSome) (upper lower : Group) :
    Deepens provider (joinGroups upper lower) fun depth reached joined =>
      ∀ above below, upper.depths depth = (above, above) → lower.depths depth = (below, below) →
        joined.depths depth = (1 + max above below, 1 + max above below) ∧
          reached ≤ 1 + max above below := by
  refine (Build.and2_deepens _ _).bind fun propagate =>
    (Build.ao21_deepens _ _ _ native).bind fun generate => Build.deepens_pure ?_
  rintro depth second ⟨isGenerate, secondLe⟩ first ⟨isPropagate, firstLe⟩ above below isUpper
    isLower
  simp only [Group.depths, Prod.mk.injEq] at isUpper isLower ⊢
  rw [isUpper.1, isUpper.2, isLower.2] at isGenerate secondLe
  rw [isUpper.1, isLower.1] at isPropagate firstLe
  omega

theorem combine_deepens (native : (provider.realize .ao21).isSome) (groups : Array Group)
    {combination : Combination} (lower : combination.source < combination.target)
    (inside : combination.target < width) :
    Deepens provider (combine groups combination) fun depth reached after =>
      ∀ levelOf, Levelled depth width levelOf groups →
        Levelled depth width (deepen levelOf combination) after ∧
          reached ≤ deepen levelOf combination combination.target := by
  unfold combine
  split
  · rename_i upper below foundUpper foundBelow
    refine (joinGroups_deepens native upper below).bind fun joined =>
      Deepens.after (fun _ => rfl) fun _ => Build.deepens_pure ?_
    intro depth reached isJoined levelOf levelled
    rcases isJoined _ _ (levelled.depths _ _ foundUpper) (levelled.depths _ _ foundBelow) with
      ⟨joinedDepths, le⟩
    refine ⟨⟨?_, fun position group found => ?_⟩, ?_⟩
    · rw [Array.size_setIfInBounds, levelled.size]
    · rw [Array.getElem?_setIfInBounds] at found
      rw [deepen, Function.update_apply]
      by_cases same : combination.target = position
      · subst same
        rw [if_pos rfl, if_pos (levelled.size.symm ▸ inside)] at found
        rw [if_pos rfl, ← Option.some.inj found, joinedDepths]
      · rw [if_neg same] at found
        rw [if_neg (Ne.symm same)]
        exact levelled.depths position group found
    · rwa [deepen, Function.update_self, Nat.max_zero]
  · rename_i absent
    refine Build.deepens_pure fun depth levelOf levelled => ?_
    rcases levelled.exists_group inside with ⟨upper, foundUpper, _⟩
    rcases levelled.exists_group (Nat.lt_trans lower inside) with ⟨below, foundBelow, _⟩
    exact absurd foundBelow (absent upper below foundUpper)

/-- Every combination is as deep as its target becomes, and that is no deeper than the target is in
the end. -/
theorem foldlM_combine_deepens (native : (provider.realize .ao21).isSome)
    {row : List Combination} (inside : ∀ combination ∈ row,
      combination.source < combination.target ∧ combination.target < width)
    (groups : Array Group) :
    Deepens provider (row.foldlM combine groups) fun depth reached after =>
      ∀ levelOf, Levelled depth width levelOf groups →
        Levelled depth width (row.foldl deepen levelOf) after ∧
          ∀ bound, (∀ position < width, row.foldl deepen levelOf position ≤ bound) →
            reached ≤ bound := by
  induction row generalizing groups with
  | nil =>
      exact Build.deepens_pure fun depth levelOf levelled =>
        ⟨levelled, fun bound _ => Nat.zero_le bound⟩
  | cons first rest ih =>
      rw [List.forall_mem_cons] at inside
      rw [List.foldlM_cons]
      refine (combine_deepens native groups inside.1.1 inside.1.2).bind fun combined =>
        (ih inside.2 combined).imp ?_
      intro depth more after later reached here levelOf levelled
      rcases here levelOf levelled with ⟨isCombined, le⟩
      rcases later _ isCombined with ⟨isAfter, laterLe⟩
      refine ⟨isAfter, fun bound fits => Nat.max_le.mpr ⟨?_, laterLe bound fits⟩⟩
      calc reached ≤ deepen levelOf first first.target := le
        _ ≤ rest.foldl deepen (deepen levelOf first) first.target :=
            Combination.le_foldl_deepen _ rest _
        _ ≤ bound := fits first.target inside.1.2

theorem combineRows_eq_foldlM (groups : Array Group) (rows : List (List Combination)) :
    combineRows groups rows = rows.flatten.foldlM combine groups := by
  induction rows generalizing groups with
  | nil => rfl
  | cons row rows ih =>
      rw [List.flatten_cons, List.foldlM_append, combineRows, List.foldlM_cons]
      exact bind_congr fun combined => ih combined

/-- A tree makes the groups as deep as its topology says, and nothing else is deeper. -/
theorem combineRows_deepens (native : (provider.realize .ao21).isSome) (topology : Topology)
    (levels : Nat) (groups : Array Group) :
    Deepens provider (combineRows groups (topology.schedule levels)) fun depth reached finished =>
      Levelled depth (2 ^ levels) (fun _ => 1) groups →
        Levelled depth (2 ^ levels) topology.groupDepth finished ∧
          ∀ bound, (∀ position < 2 ^ levels, topology.groupDepth position ≤ bound) →
            reached ≤ bound := by
  have inside := topology.flatten_schedule_inside levels
  have closed (position : Nat) (inside : position < 2 ^ levels) :
      (topology.schedule levels).flatten.foldl deepen (fun _ => 1) position =
        topology.groupDepth position :=
    topology.schedule_depths levels inside
  rw [combineRows_eq_foldlM]
  refine (foldlM_combine_deepens native inside groups).imp ?_
  intro depth reached finished combined start
  rcases combined _ start with ⟨levelled, le⟩
  refine ⟨⟨levelled.size, fun position group found => ?_⟩, fun bound fits => le bound ?_⟩
  · have lt := (Array.getElem?_eq_some_iff.mp found).1
    rw [levelled.size] at lt
    rw [levelled.depths position group found, closed position lt]
  · intro position lt
    rw [closed position lt]
    exact fits position lt

/-- The half adders make one level. -/
theorem bitGroups_deepens (native : (provider.realize .halfAdder).isSome)
    {left right : List SignalId} (leftWidth : left.length = width)
    (rightWidth : right.length = width) :
    Deepens provider ((left.zip right).mapM fun (left, right) => bitGroup left right)
      fun depth reached bits => (∀ id ∈ left ++ right, depth id = 0) →
        Levelled depth width (fun _ => 1) bits.toArray ∧ reached ≤ 1 := by
  have each (pair : SignalId × SignalId) := bitGroup_deepens native pair.1 pair.2
  refine (Deepens.mapM each).imp ?_
  rintro depth reached bits ⟨areBits, le⟩ shallow
  have level : ∀ pair ∈ left.zip right, 1 + max (depth pair.1) (depth pair.2) = 1 := by
    intro pair member
    rcases List.of_mem_zip member with ⟨inLeft, inRight⟩
    rw [shallow _ (List.mem_append_left _ inLeft), shallow _ (List.mem_append_right _ inRight)]
    rfl
  refine ⟨⟨?_, fun position group found => ?_⟩,
    le 1 fun pair member => Nat.le_of_eq (level pair member)⟩
  · have lengths := congrArg List.length areBits
    simpa [leftWidth, rightWidth] using lengths
  · have member : group.depths depth ∈ bits.map (Group.depths depth) :=
      List.mem_map_of_mem (List.mem_of_getElem? (List.getElem?_toArray.symm.trans found))
    rw [areBits] at member
    rcases List.mem_map.mp member with ⟨pair, inZip, isPair⟩
    rw [← isPair, level pair inZip]

/-- A sum bit is one level above its own position and the group below it. -/
theorem sumBits_deepens (native : (provider.realize .xor2).isSome) (positive : 0 < width)
    (levelOf : Nat → Nat) (bits : List Group) (finished : Array Group) :
    Deepens provider (sumBits bits finished.toList) fun depth reached sums =>
      Levelled depth width (fun _ => 1) bits.toArray → Levelled depth width levelOf finished →
        sums.map depth =
            1 :: (List.range (width - 1)).map (fun position => 1 + max 1 (levelOf position)) ∧
          ∀ bound, (∀ position < width - 1, 1 + max 1 (levelOf position) ≤ bound) →
            reached ≤ bound := by
  cases bits with
  | nil => exact Build.deepens_pure fun depth single => absurd single.size.symm positive.ne'
  | cons lowest higher =>
      have each (pair : Group × Group) :=
        Build.xor2_deepens pair.1.propagate pair.2.generate native
      refine (Deepens.mapM each).bind fun sums => Build.deepens_pure ?_
      rintro depth reached ⟨areSums, le⟩ single isFinished
      have propagates : ∀ group ∈ lowest :: higher, depth group.propagate = 1 := by
        intro group member
        rcases List.mem_iff_getElem?.mp member with ⟨position, found⟩
        exact congrArg Prod.fst
          (single.depths position group (List.getElem?_toArray.trans found))
      rw [List.forall_mem_cons] at propagates
      have count : higher.length = width - 1 := by
        have size := single.size
        simp only [List.size_toArray, List.length_cons] at size
        omega
      have levelled : (higher.zip finished.toList).map (fun pair =>
          1 + max (depth pair.1.propagate) (depth pair.2.generate)) =
            (List.range (width - 1)).map fun position => 1 + max 1 (levelOf position) := by
        refine List.ext_getElem ?_ fun position inZip _ => ?_
        · simp [count, isFinished.size]
        · rw [List.length_map, List.length_zip] at inZip
          have inside : position < finished.size := Nat.lt_of_lt_of_le inZip (Nat.min_le_right _ _)
          have isBelow : depth finished[position].generate = levelOf position := congrArg Prod.snd
            (isFinished.depths position _ (Array.getElem?_eq_getElem inside))
          simp only [List.getElem_map, List.getElem_zip, List.getElem_range, Array.getElem_toList]
          rw [propagates.2 _ (List.getElem_mem _), isBelow]
      refine ⟨?_, fun bound fits => ?_⟩
      · rw [List.map_cons, propagates.1, areSums, levelled]
      · refine Nat.max_le.mpr ⟨le bound fun pair member => ?_, Nat.zero_le bound⟩
        have isLevel := List.mem_map_of_mem member (f := fun pair : Group × Group =>
          1 + max (depth pair.1.propagate) (depth pair.2.generate))
        rw [levelled] at isLevel
        rcases List.mem_map.mp isLevel with ⟨position, inside, same⟩
        exact same ▸ fits position (List.mem_range.mp inside)

/-- The depth of every bit of a sum, and a bound for everything on the way to it. -/
theorem treeSum_deepens (native : provider.HasTreeGates) (topology : Topology) {levels : Nat}
    (enough : 2 ≤ levels) {left right : List SignalId} (leftWidth : left.length = 2 ^ levels)
    (rightWidth : right.length = 2 ^ levels) :
    Deepens provider (treeSum topology left right) fun depth reached sums =>
      (∀ id ∈ left ++ right, depth id = 0) →
        sums.map depth = 1 :: (List.range (2 ^ levels - 1)).map
            (fun position => 1 + topology.groupDepth position) ∧
          reached ≤ topology.adderDepth levels := by
  rw [treeSum, leftWidth, Nat.log2_two_pow]
  have halfAdder := native .halfAdder (by decide)
  have ao21 := native .ao21 (by decide)
  have xor2 := native .xor2 (by decide)
  refine (bitGroups_deepens halfAdder leftWidth rightWidth).bind fun bits =>
    Deepens.after (fun _ => rfl) fun _ =>
      (combineRows_deepens ao21 topology levels bits.toArray).bind fun finished =>
        Deepens.after (fun _ => rfl) fun _ => Deepens.after (fun _ => rfl) fun _ =>
          (sumBits_deepens xor2 (Nat.two_pow_pos levels) topology.groupDepth bits finished).imp ?_
  intro depth sumReached sums summed treeReached combined bitReached opened shallow
  rcases opened shallow with ⟨single, bitLe⟩
  rcases combined single with ⟨isFinished, treeLe⟩
  rcases summed single isFinished with ⟨isSum, sumLe⟩
  have below (position : Nat) (inside : position < 2 ^ levels) :=
    topology.groupDepth_lt enough inside
  have deeper : ∀ position ∈ List.range (2 ^ levels - 1),
      1 + max 1 (topology.groupDepth position) = 1 + topology.groupDepth position := by
    intro position member
    have inside : position < 2 ^ levels :=
      Nat.lt_of_lt_of_le (List.mem_range.mp member) (Nat.sub_le _ _)
    rw [Nat.max_eq_right (topology.one_le_groupDepth inside)]
  have two : 2 ≤ topology.adderDepth levels := by
    cases topology <;> simp only [Topology.adderDepth] <;> omega
  have bits := Nat.le_trans bitLe (Nat.le_of_lt two)
  have tree := treeLe (topology.adderDepth levels) fun position inside =>
    Nat.le_of_lt (below position inside)
  have last := sumLe (topology.adderDepth levels) fun position inside => by
    have := below position (by omega)
    omega
  rw [List.map_congr_left deeper] at isSum
  exact ⟨isSum, Nat.max_le.mpr ⟨bits, Nat.max_le.mpr ⟨tree, last⟩⟩⟩

theorem inScope_deepens {step : Build (List SignalId)}
    {post : (SignalId → Nat) → Nat → List SignalId → Prop} (deepens : Deepens provider step post)
    (scope : Option String) : Deepens provider (inScope scope step) post := by
  have ending : Deepens provider
      (step >>= fun result => Build.setScope none >>= fun _ => pure result) post := by
    refine deepens.bind fun result => Deepens.after (fun _ => rfl) fun _ => Build.deepens_pure ?_
    intro depth reached agrees
    rwa [Nat.max_zero]
  cases scope with
  | none => exact ending
  | some scope => exact Deepens.after (fun _ => rfl) fun _ => ending

/-- Without registers there is only the sum between the ports. -/
theorem Options.staged_unregistered {options : Options} (noInput : options.registerInput = false)
    (noOutput : options.registerOutput = false) (a b : List SignalId) :
    options.staged a b = sum a b options.algorithm (some "add") := by
  simp [staged, Generator.registerStage, noInput, noOutput]

/-- The depth in the summary is that of the tree. -/
theorem Options.summary_of_generate {options : Options} {topology : Topology} {levels : Nat}
    (enough : 3 ≤ levels) (width : options.width = 2 ^ levels)
    (isTree : options.algorithm = .tree topology) (noInput : options.registerInput = false)
    (noOutput : options.registerOutput = false) {provider : Provider}
    (native : provider.HasTreeGates) {memory : Memory} {netlist : Netlist}
    (generated : options.generate provider memory = .ok netlist) :
    ∃ summary, netlist.summary = .ok summary ∧ summary.depth = topology.adderDepth levels := by
  rcases exists_opening generated with ⟨complete, _, builder, a, b, accepted, _, opening⟩
  have isProvider := Provider.toProvider_of_complete accepted
  rcases Attempt.run_bind_eq_ok opening.ran with ⟨word, built, staged, delivered⟩
  have outcome := options.staged_streams opening.lt.1 opening.lt.2 complete builder word built
    (Nat.le_refl _) staged
  have extension := outcome.moves.extension
  rcases Attempt.deliver_eq_ok (extension.outputs.trans opening.opened.outputs) delivered with
    ⟨rfl, _⟩
  have sound := opening.opened.sound.steps
    (.tail (.single (.moves outcome.moves)) (.output built "o" word))
  rcases Netlist.exists_signalDepths_iff.mpr sound.runnable.ordered with ⟨depths, found⟩
  rcases Netlist.measured_of_signalDepths found with ⟨_, measured⟩
  rcases Netlist.summary_eq_ok found with ⟨summary, reported, isDepth⟩
  refine ⟨summary, reported, isDepth.trans ?_⟩
  -- All gates are those of the sum, and its operands are the bits of the ports.
  have accepts : (Algorithm.tree topology).checkWidth a.length = .ok () := by
    rw [opening.widthA, ← isTree]
    exact opening.checked
  have deepens := treeSum_deepens (isProvider ▸ native) topology (by omega)
    (opening.widthA.trans width) (opening.widthB.trans width)
  rw [staged_unregistered noInput noOutput, isTree] at staged
  have performs := sum_performs (opening.widthA.trans opening.widthB.symm) accepts (some "add")
  rcases performs.gates (inScope_deepens deepens _) staged with ⟨gates, appended, holds⟩
  rw [opening.opened.gates] at appended
  have isGates : (built.addOutput "o" word).netlist.gates.toList = gates := appended
  have ports : (built.addOutput "o" word).netlist.inputs = [⟨"a", a⟩, ⟨"b", b⟩] :=
    extension.inputs.trans opening.opened.inputs
  have shallow : ∀ id ∈ a ++ b, Netlist.depthAt depths id = 0 := by
    refine List.forall_mem_append.mpr ⟨fun id bit => ?_, fun id bit => ?_⟩
    · exact sound.depth_input measured (by simp [ports] : (⟨"a", a⟩ : Port) ∈ _) bit
    · exact sound.depth_input measured (by simp [ports] : (⟨"b", b⟩ : Port) ∈ _) bit
  rcases holds (Netlist.depthAt depths) (isGates ▸ measured.driven) with
    ⟨reached, bounded, agrees⟩
  rcases agrees shallow with ⟨areSums, le⟩
  have critical : topology.adderDepth levels ∈ word.map (Netlist.depthAt depths) := by
    have isLast : 2 ^ levels - 2 < 2 ^ levels - 1 := by
      have := Nat.pow_le_pow_right Nat.two_pos enough
      omega
    rw [areSums, ← topology.groupDepth_critical enough]
    exact List.mem_cons_of_mem _ (List.mem_map.mpr
      ⟨_, List.mem_range.mpr isLast, Nat.add_comm 1 _⟩)
  rcases List.mem_map.mp critical with ⟨deepest, _, isDeepest⟩
  refine measured.foldl_eq (fun gate isGate id output => ?_) isDeepest
  exact Nat.le_trans (bounded gate (isGates ▸ isGate) id output) le

/-- The options with a tree over two to the power of `levels` positions and without registers. -/
def Options.unregistered (options : Options) (topology : Topology) (levels : Nat) : Options :=
  { options with
    width := 2 ^ levels, algorithm := .tree topology, registerInput := false,
    registerOutput := false }

theorem Options.check_unregistered (options : Options) (topology : Topology) (levels : Nat) :
    (options.unregistered topology levels).check = .ok () := by
  have power : (2 ^ levels).isPowerOfTwo := ⟨levels, rfl⟩
  rw [check_eq, refusals, unregistered]
  simp [Algorithm.refusals, power]

/-- The depth in the summary of an adder without registers, made of native gates over two to the
power of `levels` positions, is `levels + 2` for a Kogge-Stone tree, `levels + 3` for a Han-Carlson
tree and `2 * levels` for a Brent-Kung tree. From sixteen positions on these are in ascending order.
Such an adder is generated where the provider has the basis and there is room for the operands. -/
theorem unregistered_depth {levels : Nat} (enough : 3 ≤ levels) {provider : Provider}
    (native : provider.HasTreeGates) (options : Options) (memory : Memory) :
    (∀ topology netlist,
      (options.unregistered topology levels).generate provider memory = .ok netlist →
        ∃ summary, netlist.summary = .ok summary ∧ summary.depth = topology.adderDepth levels) ∧
    (provider.lacking = [] → memory.fits (2 ^ levels) Memory.wordBytes = true →
      ∃ (netlists : Topology → Netlist) (summaries : Topology → Summary),
        (∀ topology,
          (options.unregistered topology levels).generate provider memory =
              .ok (netlists topology) ∧
            (netlists topology).summary = .ok (summaries topology) ∧
              (summaries topology).depth = topology.adderDepth levels) ∧
        (4 ≤ levels → (summaries .koggeStone).depth < (summaries .hanCarlson).depth ∧
          (summaries .hanCarlson).depth < (summaries .brentKung).depth)) := by
  have each (topology : Topology) (netlist : Netlist)
      (generated : (options.unregistered topology levels).generate provider memory = .ok netlist) :=
    Options.summary_of_generate enough rfl rfl rfl rfl native generated
  refine ⟨each, fun lacks room => ?_⟩
  have all (topology : Topology) : ∃ netlist summary,
      (options.unregistered topology levels).generate provider memory = .ok netlist ∧
        netlist.summary = .ok summary ∧ summary.depth = topology.adderDepth levels := by
    rcases Options.exists_generate (options.check_unregistered topology levels) lacks room with
      ⟨netlist, generated⟩
    rcases each topology netlist generated with ⟨summary, reported, isDepth⟩
    exact ⟨netlist, summary, generated, reported, isDepth⟩
  choose netlists summaries generated using all
  refine ⟨netlists, summaries, generated, fun four => ?_⟩
  simp only [generated, Topology.adderDepth]
  omega

/-- Adders of sixteen bits from gates without decomposition. -/
theorem unregistered_depth_inferred :
    ∃ (netlists : Topology → Netlist) (summaries : Topology → Summary),
      (∀ topology,
        (({} : Options).unregistered topology 4).generate .inferred = .ok (netlists topology) ∧
          (netlists topology).summary = .ok (summaries topology)) ∧
      (summaries .koggeStone).depth = 6 ∧ (summaries .hanCarlson).depth = 7 ∧
        (summaries .brentKung).depth = 8 := by
  have native : Provider.inferred.HasTreeGates := fun _ _ => rfl
  rcases (unregistered_depth (by decide : 3 ≤ 4) native {} .machine).2 rfl rfl with
    ⟨netlists, summaries, each, _⟩
  exact ⟨netlists, summaries, fun topology => ⟨(each topology).1, (each topology).2.1⟩,
    (each .koggeStone).2.2, (each .hanCarlson).2.2, (each .brentKung).2.2⟩

end Adder

end Datapath
