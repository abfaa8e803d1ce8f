import Hazard.Graph.Builder
import Hazard.Proofs.RecordedStreams
/-!
# A built graph has the edges it was shown

A builder keeps the place of every batch in one word, the offset above the count. As long as the
buffer is smaller than half a word can count, the place is read back as it was written, and batches
that come later lie behind it. The graph of a stream then has, for every state, the edges of the
last batch of that state.
-/

namespace Hazard

/-! ## Places in one word -/

namespace Block

theorem toNat_pack {block : Block} (hoffset : block.offset < UInt32.size)
    (hcount : block.count < UInt32.size) :
    block.pack.toNat = UInt32.size * block.offset + block.count := by
  have hsize : UInt32.size = 2 ^ 32 := rfl
  have hhigh : (UInt64.ofNat block.offset <<< 32).toNat = 2 ^ 32 * block.offset := by
    rw [UInt64.toNat_shiftLeft, UInt64.toNat_ofNat', Nat.shiftLeft_eq]
    change block.offset % 2 ^ 64 * 2 ^ 32 % 2 ^ 64 = 2 ^ 32 * block.offset
    omega
  have hlow : (UInt64.ofNat block.count).toNat = block.count := by
    rw [UInt64.toNat_ofNat', Nat.mod_eq_of_lt (by omega)]
  calc block.pack.toNat
      = (UInt64.ofNat block.offset <<< 32).toNat ||| (UInt64.ofNat block.count).toNat :=
        UInt64.toNat_or _ _
    _ = 2 ^ 32 * block.offset ||| block.count := by rw [hhigh, hlow]
    _ = 2 ^ 32 * block.offset + block.count :=
        (Nat.two_pow_add_eq_or_of_lt (by omega) block.offset).symm

theorem unpack_pack {block : Block} (hoffset : block.offset < UInt32.size)
    (hcount : block.count < UInt32.size) : unpack block.pack = block := by
  have hsize : UInt32.size = 2 ^ 32 := rfl
  have hword := toNat_pack hoffset hcount
  have hhigh : (block.pack >>> 32).toNat = block.offset := by
    rw [UInt64.toNat_shiftRight, hword, Nat.shiftRight_eq_div_pow]
    change (2 ^ 32 * block.offset + block.count) / 2 ^ 32 = block.offset
    omega
  have hlow : (block.pack &&& 0xffffffff).toNat = block.count := by
    rw [UInt64.toNat_and, hword]
    change (2 ^ 32 * block.offset + block.count) &&& (2 ^ 32 - 1) = block.count
    rw [Nat.and_two_pow_sub_one_eq_mod]
    omega
  unfold unpack
  rw [hhigh, hlow]

end Block

/-! ## Batches in one buffer -/

variable {α : Type} {stream rest : List (Origin × List (Transition α))} {origin : Origin}
  {batch : List (Transition α)} {source states : Nat} {propositions : List String}
  {graph : StateGraph}

def lastBatch (stream : List (Origin × List (Transition α))) (origin : Origin) :
    List (Transition α) :=
  batchOf stream.reverse origin

theorem lastBatch_append (other : Origin) :
    lastBatch (stream ++ [(origin, batch)]) other =
      if other = origin then batch else lastBatch stream other := by
  rw [lastBatch, List.reverse_append, batchOf, List.reverse_singleton, List.singleton_append,
    List.lookup_cons]
  by_cases heq : other = origin
  · simp [heq]
  · have hne : (other == origin) = false := by simpa using heq
    rw [hne, if_neg heq, lastBatch, batchOf]

theorem lastBatch_mem (horigin : origin ∈ stream.map (·.1)) :
    (origin, lastBatch stream origin) ∈ stream := by
  have hmem : (origin, lastBatch stream origin) ∈ stream.reverse :=
    mem_stream_of_mem_map (by simpa using horigin)
  exact List.mem_reverse.1 hmem

theorem reported_append (other : Origin) :
    reported (stream ++ [(origin, batch)]) other =
      reported stream other ++ if origin = other then batch else [] := by
  rw [reported, List.filter_append, List.flatMap_append, reported]
  by_cases heq : origin = other
  · simp [heq]
  · simp [heq]

def Block.slice (block : Block) (edges : Array Edge) : List Edge :=
  (edges.extract block.offset (block.offset + block.count)).toList

theorem Block.slice_append {block : Block} {edges : Array Edge} (more : List Edge)
    (hwithin : block.offset + block.count ≤ edges.size) :
    block.slice (edges ++ more) = block.slice edges := by
  rw [slice, slice, Array.toList_extract, Array.toList_extract, Array.toList_appendList,
    List.extract_eq_take_drop, List.extract_eq_take_drop]
  rw [List.drop_append_of_le_length (by simp; omega),
    List.take_append_of_le_length (by simp; omega)]

theorem Block.slice_behind (edges : Array Edge) (more : List Edge) :
    Block.slice ⟨edges.size, more.length⟩ (edges ++ more) = more := by
  simp [slice]

namespace GraphBuilder

variable {builder next final : GraphBuilder} {verdict : Verdict}

structure Recorded (builder : GraphBuilder) (stream : List (Origin × List (Transition α))) :
    Prop where
  nextOffset_eq : builder.nextOffset.toNat = builder.edges.size
  size_le : builder.edges.size ≤ builder.capacity
  capacity_lt : builder.capacity < UInt32.size
  initial_eq : builder.initial = (reported stream none).map Transition.edge
  within : ∀ (source : Nat) (word : UInt64), builder.blocks[source]? = some word →
    (Block.unpack word).offset + (Block.unpack word).count ≤ builder.edges.size
  slice_eq : ∀ (source : Nat) (word : UInt64), builder.blocks[source]? = some word →
    (Block.unpack word).slice builder.edges =
      (lastBatch stream (some source)).map Transition.edge

theorem recorded_create {stateCapacity edgeCapacity : Nat}
    (h : create stateCapacity edgeCapacity = .ok builder) :
    builder.Recorded ([] : List (Origin × List (Transition α))) := by
  unfold create at h
  split at h
  · next hroom =>
    cases h
    have hzero (source : Nat) (word : UInt64)
        (hword : (Array.replicate stateCapacity (0 : UInt64))[source]? = some word) : word = 0 := by
      simp only [Array.getElem?_replicate, Option.ite_none_right_eq_some] at hword
      exact (Option.some.inj hword.2).symm
    refine ⟨rfl, Nat.zero_le _, by dsimp only; omega, rfl, ?_, ?_⟩
    · intro source word hword
      rw [hzero source word hword]
      exact Nat.le_refl 0
    · intro source word hword
      rw [hzero source word hword]
      rfl
  · cases h

theorem store_size (buffer : Array Edge) (edges : List Edge) :
    store buffer buffer.size edges = buffer ++ edges := by
  induction edges generalizing buffer with
  | nil => simp [store]
  | cons edge rest ih =>
      have hplace : place buffer buffer.size edge = buffer.push edge := by simp [place]
      rw [store, hplace, ← Array.size_push edge, ih]
      simp

theorem append_eq_ok {edges : List Edge}
    (h : builder.append (α := α) source edges = (next, .ok verdict)) :
    verdict = .proceed ∧ builder.nextOffset.toNat + edges.length ≤ builder.capacity ∧
      source < builder.blocks.size ∧
      next = { builder with
        nextOffset := builder.nextOffset + UInt64.ofNat edges.length
        edges := store builder.edges builder.nextOffset.toNat edges
        blocks := builder.blocks.setIfInBounds source
          (Block.pack ⟨builder.nextOffset.toNat, edges.length⟩) } := by
  unfold append at h
  dsimp only at h
  split at h
  · cases h
  · next hroom =>
    split at h
    · next hfits =>
      cases h
      have hbehind : builder.nextOffset.toNat + edges.length ≤ builder.capacity := by
        cases edges with
        | nil => simpa using hroom
        | cons edge rest =>
            simp only [List.length_cons] at hfits ⊢
            omega
      rw [List.take_of_length_le hfits.1]
      exact ⟨rfl, hbehind, hfits.2, rfl⟩
    · cases h

theorem toNat_add_count {offset : UInt64} {count : Nat}
    (h : offset.toNat + count < UInt64.size) :
    (offset + UInt64.ofNat count).toNat = offset.toNat + count := by
  rw [UInt64.toNat_add, UInt64.toNat_ofNat_of_lt' (by omega)]
  exact Nat.mod_eq_of_lt h

theorem getElem?_setIfInBounds_cases {words : Array UInt64} {new word : UInt64} {other : Nat}
    (h : (words.setIfInBounds source new)[other]? = some word) :
    (other = source ∧ word = new) ∨ (other ≠ source ∧ words[other]? = some word) := by
  rw [Array.getElem?_setIfInBounds] at h
  split at h
  · next heq =>
    split at h
    · cases h
      exact .inl ⟨heq.symm, rfl⟩
    · cases h
  · next hne => exact .inr ⟨Ne.symm hne, h⟩

theorem Recorded.append (hbuilder : builder.Recorded stream)
    (h : builder.append (α := α) source (batch.map Transition.edge) = (next, .ok verdict)) :
    next.Recorded (stream ++ [(some source, batch)]) := by
  obtain ⟨-, hroom, hsource, rfl⟩ := append_eq_ok h
  have hoffset := hbuilder.nextOffset_eq
  have hcapacity := hbuilder.capacity_lt
  have hstop :
      (builder.nextOffset + UInt64.ofNat (batch.map Transition.edge).length).toNat =
        builder.nextOffset.toNat + (batch.map Transition.edge).length :=
    toNat_add_count (by simp only [UInt32.size, UInt64.size] at *; omega)
  rw [hoffset] at hroom hstop ⊢
  rw [store_size]
  have hunpack :
      Block.unpack (Block.pack ⟨builder.edges.size, (batch.map Transition.edge).length⟩) =
        ⟨builder.edges.size, (batch.map Transition.edge).length⟩ :=
    Block.unpack_pack (by dsimp only; omega) (by dsimp only; omega)
  have hmore : (builder.edges ++ batch.map Transition.edge).size =
      builder.edges.size + (batch.map Transition.edge).length := by
    rw [← Array.length_toList, Array.toList_appendList, List.length_append, Array.length_toList]
  constructor
  · exact hstop.trans hmore.symm
  · exact Nat.le_trans (Nat.le_of_eq hmore) hroom
  · exact hcapacity
  · rw [reported_append, if_neg nofun, List.append_nil]
    exact hbuilder.initial_eq
  · intro other word hword
    rcases getElem?_setIfInBounds_cases hword with ⟨-, rfl⟩ | ⟨-, hold⟩
    · rw [hunpack]
      exact Nat.le_of_eq hmore.symm
    · exact Nat.le_trans (hbuilder.within other word hold) (by dsimp only; omega)
  · intro other word hword
    rw [lastBatch_append]
    rcases getElem?_setIfInBounds_cases hword with ⟨rfl, rfl⟩ | ⟨hne, hold⟩
    · rw [hunpack, if_pos rfl]
      exact Block.slice_behind _ _
    · rw [if_neg (by simpa using hne), ← hbuilder.slice_eq other word hold]
      exact Block.slice_append _ (hbuilder.within other word hold)

theorem Recorded.observe (hbuilder : builder.Recorded stream)
    (h : (observer (α := α)).observe builder origin batch = (next, .ok verdict)) :
    verdict = .proceed ∧ next.Recorded (stream ++ [(origin, batch)]) := by
  cases origin with
  | none =>
      cases h
      refine ⟨rfl, hbuilder.nextOffset_eq, hbuilder.size_le, hbuilder.capacity_lt, ?_,
        hbuilder.within, ?_⟩
      · rw [reported_append, if_pos rfl, List.map_append, ← hbuilder.initial_eq]
      · intro source word hword
        rw [lastBatch_append, if_neg nofun]
        exact hbuilder.slice_eq source word hword
  | some source => exact ⟨(append_eq_ok h).1, hbuilder.append h⟩

theorem Recorded.passes (hbuilder : builder.Recorded stream)
    (hpasses : (observer (α := α)).Passes builder rest final) :
    final.Recorded (stream ++ rest) := by
  induction hpasses generalizing stream with
  | nil => simpa using hbuilder
  | cons hshown _ ih =>
      have hfinal := ih (hbuilder.observe hshown).2
      simpa using hfinal

/-! ## The finished graph -/

theorem usedEdges_of_le
    (h : builder.edges.size ≤ min builder.nextOffset.toNat builder.capacity) :
    builder.usedEdges = builder.edges ++ Array.replicate
      (min builder.nextOffset.toNat builder.capacity - builder.edges.size) default := by
  rw [usedEdges]
  apply Array.extract_eq_self_of_le
  simp only [Array.size_append, Array.size_replicate]
  omega

theorem Recorded.usedEdges_eq (hbuilder : builder.Recorded stream) :
    builder.usedEdges = builder.edges := by
  have hused : min builder.nextOffset.toNat builder.capacity = builder.edges.size := by
    rw [hbuilder.nextOffset_eq, Nat.min_eq_left hbuilder.size_le]
  rw [usedEdges_of_le (Nat.le_of_eq hused.symm), hused, Nat.sub_self]
  simp

theorem blocks_of_finish (h : builder.finish states propositions = .ok graph) {state : Nat}
    (hstate : state < states) :
    ∃ word, builder.blocks[state]? = some word ∧
      graph.blocks[state]? = some (Block.unpack word) := by
  unfold GraphBuilder.finish at h
  split at h
  · next hroom =>
    cases h
    have hword : builder.blocks[state]? = some (builder.blocks[state]) :=
      Array.getElem?_eq_getElem (by omega)
    have hin : state < min states builder.blocks.size - 0 := by omega
    refine ⟨_, hword, ?_⟩
    rw [Array.getElem?_map, Array.getElem?_extract, if_pos hin, Nat.zero_add, hword]
    rfl
  · cases h

theorem stateCount_of_finish (h : builder.finish states propositions = .ok graph) :
    graph.stateCount = states := by
  unfold GraphBuilder.finish at h
  split at h
  · cases h
    simp only [StateGraph.stateCount, Array.size_map, Array.size_extract]
    omega
  · cases h

theorem Recorded.finish (hbuilder : builder.Recorded stream)
    (h : builder.finish states propositions = .ok graph) :
    graph.stateCount = states ∧ graph.propositions = propositions ∧
      graph.initial = (reported stream none).map Transition.edge ∧
      ∀ state < states, graph.outgoing state =
        (lastBatch stream (some state)).map Transition.edge := by
  have hblocks {state : Nat} (hstate : state < states) := blocks_of_finish h hstate
  refine ⟨stateCount_of_finish h, ?_⟩
  unfold GraphBuilder.finish at h
  split at h
  · cases h
    refine ⟨rfl, hbuilder.initial_eq, ?_⟩
    intro state hstate
    obtain ⟨word, hword, hblock⟩ := hblocks hstate
    rw [← hbuilder.slice_eq state word hword, StateGraph.outgoing, hblock, hbuilder.usedEdges_eq]
    rfl
  · cases h

end GraphBuilder

end Hazard
