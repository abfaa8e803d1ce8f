import Hazard.Proofs.GraphBuilding
import Mathlib.Data.List.Induction
/-!
# Batches that a graph builder accepts

A batch reserves its place before it is known to fit, so a batch that is refused leaves the place
behind the end of the buffer, and everything after it is refused as well, as long as the transitions
on offer can be counted in a word. What was accepted before stays readable: places never overlap,
fit into their half words, and end inside the buffer.
-/

namespace Hazard

variable {α : Type} {stream accepted : List (Origin × List (Transition α))} {origin : Origin}
  {batch : List (Transition α)} {source states : Nat} {propositions : List String}

def sourcedLength (stream : List (Origin × List (Transition α))) : Nat :=
  ((stream.filter (·.1.isSome)).flatMap (·.2)).length

theorem sourcedLength_append (more : List (Origin × List (Transition α))) :
    sourcedLength (stream ++ more) = sourcedLength stream + sourcedLength more := by
  simp [sourcedLength]

theorem sourcedLength_initial : sourcedLength [((none : Origin), batch)] = 0 := rfl

theorem sourcedLength_source : sourcedLength [(some source, batch)] = batch.length := by
  simp [sourcedLength]

theorem sourcedLength_take_mono {shorter longer : Nat} (hle : shorter ≤ longer) :
    sourcedLength (stream.take shorter) ≤ sourcedLength (stream.take longer) := by
  obtain ⟨more, hmore⟩ := List.take_prefix_take_left (l := stream) hle
  rw [← hmore, sourcedLength_append]
  omega

theorem take_succ_of_getElem? {index : Nat} (hentry : stream[index]? = some (origin, batch)) :
    stream.take (index + 1) = stream.take index ++ [(origin, batch)] := by
  rw [List.take_add_one, hentry, Option.toList_some]

theorem sourcedLength_take_le (stream : List (Origin × List (Transition α))) (index : Nat) :
    sourcedLength (stream.take index) ≤ sourcedLength stream := by
  conv_rhs => rw [← List.take_append_drop index stream, sourcedLength_append]
  omega

namespace GraphBuilder

variable {builder next : GraphBuilder} {capacity stateCapacity : Nat}

/-- Shows the batches of a stream one after the other, and gathers what the builder says to them. -/
def showAll (builder : GraphBuilder) (stream : List (Origin × List (Transition α))) :
    GraphBuilder × List (Except (TraversalError α) Verdict) :=
  stream.foldl
    (fun (builder, answers) (origin, batch) =>
      let (next, answer) := builder.observe origin batch
      (next, answers ++ [answer]))
    (builder, [])

theorem showAll_concat (builder : GraphBuilder) :
    builder.showAll (stream ++ [(origin, batch)]) =
      (((builder.showAll stream).1.observe origin batch).1,
        (builder.showAll stream).2 ++ [((builder.showAll stream).1.observe origin batch).2]) := by
  rw [showAll, List.foldl_append]
  rfl

/-- Every batch of a state moves the offset on, modulo the word size, and nothing changes the size
of the buffer or the number of places. -/
theorem observe_advances (builder : GraphBuilder) (origin : Origin)
    (batch : List (Transition α)) :
    (builder.observe origin batch).1.capacity = builder.capacity ∧
      (builder.observe origin batch).1.blocks.size = builder.blocks.size ∧
      (builder.observe origin batch).1.nextOffset =
        builder.nextOffset + UInt64.ofNat (sourcedLength [(origin, batch)]) := by
  cases origin with
  | none => exact ⟨rfl, rfl, (UInt64.add_zero _).symm⟩
  | some source =>
      rw [sourcedLength_source, observe, append, List.length_map]
      dsimp only
      split
      · exact ⟨rfl, rfl, rfl⟩
      · split
        · exact ⟨rfl, Array.size_setIfInBounds, rfl⟩
        · exact ⟨rfl, rfl, rfl⟩

theorem showAll_advances (builder : GraphBuilder) (stream : List (Origin × List (Transition α))) :
    (builder.showAll stream).1.capacity = builder.capacity ∧
      (builder.showAll stream).1.blocks.size = builder.blocks.size ∧
      (builder.showAll stream).1.nextOffset =
        builder.nextOffset + UInt64.ofNat (sourcedLength stream) := by
  induction stream using List.reverseRecOn with
  | nil => exact ⟨rfl, rfl, (UInt64.add_zero _).symm⟩
  | append_singleton stream entry ih =>
      obtain ⟨hcapacity, hblocks, hoffset⟩ := ih
      obtain ⟨hcapacity', hblocks', hoffset'⟩ :=
        observe_advances (builder.showAll stream).1 entry.1 entry.2
      rw [showAll_concat, sourcedLength_append, UInt64.ofNat_add, ← UInt64.add_assoc, ← hoffset]
      exact ⟨hcapacity'.trans hcapacity, hblocks'.trans hblocks, hoffset'⟩

def acceptedBy (stream : List (Origin × List (Transition α)))
    (answers : List (Except (TraversalError α) Verdict)) : List (Origin × List (Transition α)) :=
  ((stream.zip answers).filter (·.2.isOk)).map (·.1)

theorem acceptedBy_concat {answers : List (Except (TraversalError α) Verdict)}
    {answer : Except (TraversalError α) Verdict} (hlength : answers.length = stream.length) :
    acceptedBy (stream ++ [(origin, batch)]) (answers ++ [answer]) =
      acceptedBy stream answers ++ if answer.isOk then [(origin, batch)] else [] := by
  rw [acceptedBy, List.zip_append hlength.symm, List.filter_append, List.map_append, acceptedBy]
  cases hok : answer.isOk with
  | true => simp [hok]
  | false => simp [hok]

/-! ## One batch -/

def Overflows (capacity : Nat) (stream : List (Origin × List (Transition α))) (origin : Origin)
    (batch : List (Transition α)) : Prop :=
  origin.isSome = true ∧ capacity < sourcedLength (stream ++ [(origin, batch)])

/-- The builder has been shown a stream and has accepted a part of it. Up to its offset it is a
builder that was shown the accepted batches only. The offset lies at the end of what is written or
behind the end of the buffer. -/
structure Kept (builder : GraphBuilder) (stateCapacity capacity : Nat)
    (stream accepted : List (Origin × List (Transition α))) : Prop where
  capacity_eq : builder.capacity = capacity
  size_blocks : builder.blocks.size = stateCapacity
  nextOffset_eq : builder.nextOffset.toNat = sourcedLength stream
  recorded : ({ builder with nextOffset := UInt64.ofNat builder.edges.size } :
    GraphBuilder).Recorded accepted
  settled : builder.nextOffset.toNat = builder.edges.size ∨ capacity < builder.nextOffset.toNat
  initial_eq : reported accepted none = reported stream none

theorem kept_create (hcreate : create stateCapacity capacity = .ok builder) :
    builder.Kept (α := α) stateCapacity capacity [] [] := by
  have hrecorded := recorded_create (α := α) hcreate
  unfold create at hcreate
  split at hcreate
  · cases hcreate
    exact ⟨rfl, by simp, rfl, hrecorded, .inl rfl, rfl⟩
  · cases hcreate

theorem append_of_fits {edges : List Edge} (source : Nat)
    (hword : builder.nextOffset.toNat + edges.length < UInt64.size)
    (hroom : builder.nextOffset.toNat + edges.length ≤ builder.capacity)
    (hsource : source < builder.blocks.size) :
    builder.append (α := α) source edges =
      ({ builder with
          nextOffset := builder.nextOffset + UInt64.ofNat edges.length
          edges := store builder.edges builder.nextOffset.toNat edges
          blocks := builder.blocks.setIfInBounds source
            (Block.pack ⟨builder.nextOffset.toNat, edges.length⟩) }, .ok .proceed) := by
  have hfits : edges.length ≤ builder.capacity - builder.nextOffset.toNat := by omega
  rw [append]
  dsimp only
  rw [toNat_add_count hword, if_neg (by omega), if_pos ⟨hfits, hsource⟩,
    List.take_of_length_le hfits]

theorem append_of_full {edges : List Edge} (source : Nat)
    (hword : builder.nextOffset.toNat + edges.length < UInt64.size)
    (hfull : builder.capacity < builder.nextOffset.toNat + edges.length) :
    builder.append (α := α) source edges =
      ({ builder with nextOffset := builder.nextOffset + UInt64.ofNat edges.length },
        .error (.exhausted ⟨.transition, builder.capacity⟩)) := by
  rw [append]
  dsimp only
  rw [toNat_add_count hword, if_pos hfull]

/-- The offset wraps around when a word has been counted full. -/
theorem toNat_nextOffset_showAll (hcreate : create stateCapacity capacity = .ok builder)
    (stream : List (Origin × List (Transition α))) :
    (builder.showAll stream).1.nextOffset.toNat = sourcedLength stream % UInt64.size := by
  have hzero : builder.nextOffset.toNat = 0 := (kept_create (α := α) hcreate).nextOffset_eq
  rw [(builder.showAll_advances stream).2.2, UInt64.toNat_add, hzero, Nat.zero_add,
    UInt64.toNat_ofNat']
  exact Nat.mod_mod _ _

namespace Kept

/-- As long as the offset is inside the buffer, nothing has been refused. -/
theorem recorded_of_le (h : builder.Kept stateCapacity capacity stream accepted)
    (hroom : builder.nextOffset.toNat ≤ capacity) : builder.Recorded accepted := by
  have hoffset : builder.nextOffset.toNat = builder.edges.size :=
    h.settled.resolve_right (by omega)
  have hrecorded := h.recorded
  rwa [← hoffset, UInt64.ofNat_toNat] at hrecorded

theorem observe_initial (h : builder.Kept stateCapacity capacity stream accepted) :
    ∃ next, builder.observe none batch = (next, .ok .proceed) ∧
      next.Kept stateCapacity capacity (stream ++ [(none, batch)])
        (accepted ++ [(none, batch)]) := by
  refine ⟨_, rfl, h.capacity_eq, h.size_blocks, ?_, ?_, h.settled, ?_⟩
  · rw [sourcedLength_append, sourcedLength_initial]
    exact h.nextOffset_eq
  · have hobserved : (observer (α := α)).observe
        { builder with nextOffset := UInt64.ofNat builder.edges.size } none batch =
        ({ builder with
            nextOffset := UInt64.ofNat builder.edges.size
            initial := builder.initial ++ batch.map Transition.edge }, .ok .proceed) := rfl
    exact (h.recorded.observe hobserved).2
  · rw [reported_append, reported_append, h.initial_eq]

theorem sourcedLength_concat (h : builder.Kept stateCapacity capacity stream accepted)
    (source : Nat) (batch : List (Transition α)) :
    sourcedLength (stream ++ [(some source, batch)]) =
      builder.nextOffset.toNat + (batch.map Transition.edge).length := by
  rw [sourcedLength_append, sourcedLength_source, h.nextOffset_eq, List.length_map]

theorem observe_fitting (h : builder.Kept stateCapacity capacity stream accepted)
    (hsource : source < stateCapacity)
    (hoffered : sourcedLength (stream ++ [(some source, batch)]) < UInt64.size)
    (hroom : sourcedLength (stream ++ [(some source, batch)]) ≤ capacity) :
    ∃ next, builder.observe (some source) batch = (next, .ok .proceed) ∧
      next.Kept stateCapacity capacity (stream ++ [(some source, batch)])
        (accepted ++ [(some source, batch)]) := by
  have hlength := h.sourcedLength_concat source batch
  rw [hlength] at hoffered hroom
  have happend := append_of_fits (α := α) source hoffered (h.capacity_eq.symm ▸ hroom)
    (by rw [h.size_blocks]; exact hsource)
  have hnext := (h.recorded_of_le (by omega)).append happend
  refine ⟨_, happend, h.capacity_eq, ?_, ?_, ?_, .inl hnext.nextOffset_eq, ?_⟩
  · rw [Array.size_setIfInBounds]
    exact h.size_blocks
  · rw [toNat_add_count hoffered, hlength]
  · convert hnext using 2
    rw [← hnext.nextOffset_eq, UInt64.ofNat_toNat]
  · rw [reported_append, reported_append, h.initial_eq]

theorem observe_overflowing (h : builder.Kept stateCapacity capacity stream accepted)
    (hoffered : sourcedLength (stream ++ [(some source, batch)]) < UInt64.size)
    (hfull : capacity < sourcedLength (stream ++ [(some source, batch)])) :
    ∃ next, builder.observe (some source) batch =
        (next, .error (.exhausted ⟨.transition, capacity⟩)) ∧
      next.Kept stateCapacity capacity (stream ++ [(some source, batch)]) accepted := by
  have hlength := h.sourcedLength_concat source batch
  rw [hlength] at hoffered hfull
  have happend := append_of_full (α := α) source hoffered (h.capacity_eq.symm ▸ hfull)
  rw [h.capacity_eq] at happend
  have hstop := toNat_add_count hoffered
  refine ⟨_, happend, rfl, h.size_blocks, hstop.trans hlength.symm, h.capacity_eq ▸ h.recorded,
    .inr (hstop.symm ▸ hfull), ?_⟩
  rw [reported_append, if_neg nofun, List.append_nil]
  exact h.initial_eq

theorem observe (h : builder.Kept stateCapacity capacity stream accepted)
    (hsource : ∀ source, origin = some source → source < stateCapacity)
    (hoffered : sourcedLength (stream ++ [(origin, batch)]) < UInt64.size) :
    (¬Overflows capacity stream origin batch ∧
      ∃ next, builder.observe origin batch = (next, .ok .proceed) ∧
        next.Kept stateCapacity capacity (stream ++ [(origin, batch)])
          (accepted ++ [(origin, batch)])) ∨
    (Overflows capacity stream origin batch ∧
      ∃ next, builder.observe origin batch =
          (next, .error (.exhausted ⟨.transition, capacity⟩)) ∧
        next.Kept stateCapacity capacity (stream ++ [(origin, batch)]) accepted) := by
  cases origin with
  | none => exact .inl ⟨fun hoverflows => by simp [Overflows] at hoverflows, h.observe_initial⟩
  | some source =>
      rcases Nat.lt_or_ge capacity (sourcedLength (stream ++ [(some source, batch)])) with
        hfull | hroom
      · exact .inr ⟨⟨rfl, hfull⟩, h.observe_overflowing hoffered hfull⟩
      · exact .inl ⟨fun hoverflows => absurd hoverflows.2 (by omega),
          h.observe_fitting (hsource source rfl) hoffered hroom⟩

theorem usedEdges_eq (h : builder.Kept stateCapacity capacity stream accepted) :
    builder.usedEdges = builder.edges ++ Array.replicate
      (min builder.nextOffset.toNat builder.capacity - builder.edges.size) default := by
  have hsize := h.recorded.size_le
  have hcapacity := h.capacity_eq
  have hsettled := h.settled
  dsimp only at hsize
  exact usedEdges_of_le (by omega)

/-- What is read from a place is the last batch that was accepted for its state. -/
theorem slice_usedEdges (h : builder.Kept stateCapacity capacity stream accepted) {word : UInt64}
    (hword : builder.blocks[source]? = some word) :
    (Block.unpack word).slice builder.usedEdges =
      (lastBatch accepted (some source)).map Transition.edge := by
  have hpadded : builder.usedEdges = builder.edges ++
      List.replicate (min builder.nextOffset.toNat builder.capacity - builder.edges.size)
        (default : Edge) :=
    Array.toList_inj.1 (by simp [h.usedEdges_eq])
  rw [hpadded, Block.slice_append _ (h.recorded.within source word hword)]
  exact h.recorded.slice_eq source word hword

/-- A place ends inside the used part of the buffer, which is shorter than a half word can
count. -/
theorem within_usedEdges (h : builder.Kept stateCapacity capacity stream accepted) {word : UInt64}
    (hword : builder.blocks[source]? = some word) :
    (Block.unpack word).offset + (Block.unpack word).count ≤ builder.usedEdges.size ∧
      builder.usedEdges.size < UInt32.size := by
  have hwithin := h.recorded.within source word hword
  have hsize := h.recorded.size_le
  have hcapacity := h.recorded.capacity_lt
  have hsettled := h.settled
  have heq := h.capacity_eq
  rw [h.usedEdges_eq]
  simp only [Array.size_append, Array.size_replicate] at hwithin hsize hcapacity ⊢
  omega

end Kept

/-! ## A whole stream -/

/-- What the builder has become, and what it has said to every batch of a stream. -/
structure Answered (builder : GraphBuilder) (answers : List (Except (TraversalError α) Verdict))
    (stateCapacity capacity : Nat) (stream : List (Origin × List (Transition α))) : Prop where
  length_eq : answers.length = stream.length
  kept : builder.Kept stateCapacity capacity stream (acceptedBy stream answers)
  fitting : ∀ index origin batch, stream[index]? = some (origin, batch) →
    ¬Overflows capacity (stream.take index) origin batch → answers[index]? = some (.ok .proceed)
  overflowing : ∀ index origin batch, stream[index]? = some (origin, batch) →
    Overflows capacity (stream.take index) origin batch →
      answers[index]? = some (.error (.exhausted ⟨.transition, capacity⟩))

/-- The answers to a stream and one more batch are those to the stream and the last one. -/
theorem Answered.concat {answers : List (Except (TraversalError α) Verdict)}
    {answer : Except (TraversalError α) Verdict}
    (h : builder.Answered answers stateCapacity capacity stream)
    (hkept : next.Kept stateCapacity capacity (stream ++ [(origin, batch)])
      (acceptedBy stream answers ++ if answer.isOk then [(origin, batch)] else []))
    (hfits : ¬Overflows capacity stream origin batch → answer = .ok .proceed)
    (hfull : Overflows capacity stream origin batch →
      answer = .error (.exhausted ⟨.transition, capacity⟩)) :
    next.Answered (answers ++ [answer]) stateCapacity capacity (stream ++ [(origin, batch)]) := by
  have hlast {index : Nat} {other : Origin} {shown : List (Transition α)}
      (hentry : (stream ++ [(origin, batch)])[index]? = some (other, shown)) :
      (index < stream.length ∧ stream[index]? = some (other, shown)) ∨
        (index = stream.length ∧ other = origin ∧ shown = batch) := by
    rcases Nat.lt_or_ge index stream.length with hlt | hge
    · exact .inl ⟨hlt, by rwa [List.getElem?_append_left hlt] at hentry⟩
    · rw [List.getElem?_append_right hge, List.getElem?_singleton] at hentry
      split at hentry
      · cases hentry
        exact .inr ⟨by omega, rfl, rfl⟩
      · cases hentry
  have hbefore {index : Nat} (hle : index ≤ stream.length) :
      (stream ++ [(origin, batch)]).take index = stream.take index :=
    List.take_append_of_le_length hle
  refine ⟨by simp [h.length_eq], ?_, ?_, ?_⟩
  · rw [acceptedBy_concat h.length_eq]
    exact hkept
  · intro index other shown hentry hnot
    rcases hlast hentry with ⟨hlt, hentry⟩ | ⟨rfl, rfl, rfl⟩
    · rw [hbefore (Nat.le_of_lt hlt)] at hnot
      rw [List.getElem?_append_left (by rw [h.length_eq]; exact hlt)]
      exact h.fitting index other shown hentry hnot
    · rw [hbefore (Nat.le_refl _), List.take_length] at hnot
      rw [← h.length_eq, List.getElem?_concat_length, hfits hnot]
  · intro index other shown hentry hoverflows
    rcases hlast hentry with ⟨hlt, hentry⟩ | ⟨rfl, rfl, rfl⟩
    · rw [hbefore (Nat.le_of_lt hlt)] at hoverflows
      rw [List.getElem?_append_left (by rw [h.length_eq]; exact hlt)]
      exact h.overflowing index other shown hentry hoverflows
    · rw [hbefore (Nat.le_refl _), List.take_length] at hoverflows
      rw [← h.length_eq, List.getElem?_concat_length, hfull hoverflows]

theorem answered_showAll (hcreate : create stateCapacity capacity = .ok builder)
    (hsources : ∀ source batch, (some source, batch) ∈ stream → source < stateCapacity)
    (hoffered : sourcedLength stream < UInt64.size) :
    (builder.showAll stream).1.Answered (builder.showAll stream).2 stateCapacity capacity
      stream := by
  induction stream using List.reverseRecOn with
  | nil => exact ⟨rfl, kept_create hcreate, by simp, by simp⟩
  | append_singleton stream entry ih =>
      obtain ⟨origin, batch⟩ := entry
      have hbefore : sourcedLength stream < UInt64.size := by
        rw [sourcedLength_append] at hoffered
        omega
      have hpast := ih (fun source batch hmem => hsources source batch (by simp [hmem])) hbefore
      have hinside (source : Nat) (horigin : origin = some source) : source < stateCapacity :=
        hsources source batch (by simp [horigin])
      rw [showAll_concat]
      rcases hpast.kept.observe hinside hoffered with
        ⟨hfits, next, hobserved, hkept⟩ | ⟨hfull, next, hobserved, hkept⟩
      · rw [hobserved]
        exact hpast.concat hkept (fun _ => rfl) (fun hoverflows => absurd hoverflows hfits)
      · rw [hobserved]
        refine hpast.concat ?_ (fun hnot => absurd hfull hnot) (fun _ => rfl)
        simpa [Except.isOk, Except.toBool] using hkept

namespace Answered

variable {answers : List (Except (TraversalError α) Verdict)} {index : Nat}

theorem overflows_iff (hentry : stream[index]? = some (some source, batch)) :
    Overflows capacity (stream.take index) (some source) batch ↔
      capacity < sourcedLength (stream.take (index + 1)) := by
  rw [Overflows, take_succ_of_getElem? hentry]
  exact and_iff_right rfl

/-- The batch of a state is accepted exactly if all transitions for states so far fit. -/
theorem accepted_iff_fits (h : builder.Answered answers stateCapacity capacity stream)
    (hentry : stream[index]? = some (some source, batch)) :
    answers[index]? = some (.ok .proceed) ↔
      sourcedLength (stream.take (index + 1)) ≤ capacity := by
  rw [← Nat.not_lt, ← overflows_iff hentry]
  constructor
  · intro haccepted hoverflows
    rw [h.overflowing index _ _ hentry hoverflows] at haccepted
    cases haccepted
  · exact h.fitting index _ _ hentry

theorem accepted_iff (h : builder.Answered answers stateCapacity capacity stream)
    (hentry : stream[index]? = some (some source, batch)) :
    answers[index]? = some (.ok .proceed) ↔
      (∀ earlier < index, ∀ other shown, stream[earlier]? = some (some other, shown) →
        answers[earlier]? = some (.ok .proceed)) ∧
      sourcedLength (stream.take (index + 1)) ≤ capacity := by
  rw [h.accepted_iff_fits hentry, iff_and_self]
  intro hfits earlier hearlier other shown hshown
  refine (h.accepted_iff_fits hshown).2 (Nat.le_trans (sourcedLength_take_mono ?_) hfits)
  omega

theorem refused (h : builder.Answered answers stateCapacity capacity stream)
    (hentry : stream[index]? = some (some source, batch))
    (hnot : answers[index]? ≠ some (.ok .proceed)) :
    answers[index]? = some (.error (.exhausted ⟨.transition, capacity⟩)) := by
  refine h.overflowing index _ _ hentry ((overflows_iff hentry).2 (Nat.not_le.1 fun hfits => ?_))
  exact hnot ((h.accepted_iff_fits hentry).2 hfits)

end Answered

/-- A builder that is shown any stream of batches, with sources among its states and with fewer
transitions than a word can count, accepts the batch of a state exactly if it refused none before
and all transitions so far fit into the buffer. No offset wraps around, and an accepted batch is
packed without loss, behind all earlier ones. The finished graph has the last accepted batch of
every state and all initial batches; the places it reads lie inside the buffer, and their ends fit
into a half word. -/
theorem showAll_exact (hcreate : create stateCapacity capacity = .ok builder)
    (stream : List (Origin × List (Transition α)))
    (hsources : ∀ source batch, (some source, batch) ∈ stream → source < stateCapacity)
    (hoffered : sourcedLength stream < UInt64.size) :
    (∀ index source batch, stream[index]? = some (some source, batch) →
      ((builder.showAll stream).2[index]? = some (.ok .proceed) ↔
        (∀ earlier < index, ∀ other shown, stream[earlier]? = some (some other, shown) →
          (builder.showAll stream).2[earlier]? = some (.ok .proceed)) ∧
        sourcedLength (stream.take (index + 1)) ≤ capacity) ∧
      ((builder.showAll stream).2[index]? ≠ some (.ok .proceed) →
        (builder.showAll stream).2[index]? =
          some (.error (.exhausted ⟨.transition, capacity⟩))) ∧
      (builder.showAll (stream.take index)).1.nextOffset.toNat =
        sourcedLength (stream.take index) ∧
      ((builder.showAll (stream.take index)).1.nextOffset + UInt64.ofNat batch.length).toNat =
        sourcedLength (stream.take index) + batch.length ∧
      ((builder.showAll stream).2[index]? = some (.ok .proceed) →
        sourcedLength (stream.take index) + batch.length < UInt32.size ∧
        Block.unpack (Block.pack ⟨sourcedLength (stream.take index), batch.length⟩) =
          ⟨sourcedLength (stream.take index), batch.length⟩)) ∧
    ∀ states ≤ stateCapacity, ∀ propositions, ∃ graph,
      (builder.showAll stream).1.finish states propositions = .ok graph ∧
      graph.stateCount = states ∧ graph.propositions = propositions ∧
      graph.initial = (reported stream none).map Transition.edge ∧
      ∀ state < states,
        graph.outgoing state = (lastBatch (acceptedBy stream (builder.showAll stream).2)
          (some state)).map Transition.edge ∧
        ∃ block, graph.blocks[state]? = some block ∧
          block.offset + block.count ≤ graph.edgeCount ∧ graph.edgeCount < UInt32.size := by
  have hanswered := answered_showAll hcreate hsources hoffered
  have hkept := hanswered.kept
  have hoffsets (index : Nat) : (builder.showAll (stream.take index)).1.nextOffset.toNat =
      sourcedLength (stream.take index) :=
    (toNat_nextOffset_showAll hcreate _).trans
      (Nat.mod_eq_of_lt (Nat.lt_of_le_of_lt (sourcedLength_take_le stream index) hoffered))
  refine ⟨fun index source batch hentry => ⟨hanswered.accepted_iff hentry,
    hanswered.refused hentry, ?_, ?_, fun haccepted => ?_⟩, fun states hstates propositions => ?_⟩
  · exact hoffsets index
  · have hbound := sourcedLength_take_le stream (index + 1)
    rw [take_succ_of_getElem? hentry, sourcedLength_append, sourcedLength_source] at hbound
    rw [toNat_add_count (by rw [hoffsets]; omega), hoffsets]
  · have hfits := (hanswered.accepted_iff_fits hentry).1 haccepted
    have hcapacity := hkept.recorded.capacity_lt
    rw [take_succ_of_getElem? hentry, sourcedLength_append, sourcedLength_source] at hfits
    dsimp only at hcapacity
    rw [hkept.capacity_eq] at hcapacity
    exact ⟨by omega, Block.unpack_pack (by dsimp only; omega) (by dsimp only; omega)⟩
  · have hfinish : ∃ graph, (builder.showAll stream).1.finish states propositions = .ok graph ∧
        graph.edges = (builder.showAll stream).1.usedEdges ∧
        graph.initial = (builder.showAll stream).1.initial ∧
        graph.propositions = propositions := by
      refine ⟨_, if_pos ?_, rfl, rfl, rfl⟩
      rw [hkept.size_blocks]
      exact hstates
    obtain ⟨graph, hgraph, hedges, hinitial, hnames⟩ := hfinish
    refine ⟨graph, hgraph, stateCount_of_finish hgraph, hnames, ?_, fun state hstate => ?_⟩
    · rw [hinitial, ← hkept.initial_eq]
      exact hkept.recorded.initial_eq
    · obtain ⟨word, hword, hblock⟩ := blocks_of_finish hgraph hstate
      refine ⟨?_, _, hblock, ?_⟩
      · rw [← hkept.slice_usedEdges hword, StateGraph.outgoing, hblock, hedges]
        rfl
      · rw [StateGraph.edgeCount, hedges]
        exact hkept.within_usedEdges hword

/-- Batches for a builder of three states and three transitions: the second batch of state 0
replaces the first and fills the buffer, and after the batch of state 1 not even an empty batch is
accepted. -/
def overfull : List (Origin × List (Transition Rat)) :=
  let edge (target : Nat) (label : Label) : Transition Rat := ⟨target, 1, label, 0⟩
  [(none, [edge 0 .empty]), (some 0, [edge 1 .empty, edge 2 .empty]), (some 2, []),
    (some 0, [edge 2 (.below 1)]), (some 1, [edge 0 .empty]), (none, [edge 2 (.below 1)]),
    (some 2, [])]

theorem showAll_exact_overfull :
    ∃ builder graph, create 3 3 = .ok builder ∧
      (∀ source batch, (some source, batch) ∈ overfull → source < 3) ∧
      sourcedLength overfull < UInt64.size ∧
      (builder.showAll overfull).2.map (·.isOk) = [true, true, true, true, false, true, false] ∧
      (builder.showAll overfull).1.finish 3 ["p"] = .ok graph ∧
      graph.outgoing 0 = [⟨2, .below 1⟩] ∧ graph.outgoing 1 = [] ∧ graph.outgoing 2 = [] ∧
      graph.initial = [⟨0, .empty⟩, ⟨2, .below 1⟩] := by
  have hsources : ∀ source batch, (some source, batch) ∈ overfull → source < 3 := by
    have hall : ∀ entry ∈ overfull, ∀ source, entry.1 = some source → source < 3 := by
      decide +kernel
    exact fun source batch hmem => hall _ hmem source rfl
  have hoffered : sourcedLength overfull < UInt64.size := by decide +kernel
  have hcreate : create 3 3 = .ok ⟨3, #[], 0, #[0, 0, 0], []⟩ := by decide +kernel
  obtain ⟨graph, hgraph, -, -, hinitial, houtgoing⟩ :=
    (showAll_exact hcreate overfull hsources hoffered).2 3 (Nat.le_refl 3) ["p"]
  refine ⟨_, graph, hcreate, hsources, hoffered, by decide +kernel, hgraph, ?_, ?_, ?_, ?_⟩
  · rw [(houtgoing 0 (by decide)).1]
    decide +kernel
  · rw [(houtgoing 1 (by decide)).1]
    decide +kernel
  · rw [(houtgoing 2 (by decide)).1]
    decide +kernel
  · rw [hinitial]
    decide +kernel

/-- The bound on the transitions is needed: once a word has been counted full, a batch that fits
into the empty buffer is accepted again, whatever was refused before. -/
theorem accepted_of_wrapped (hcreate : create stateCapacity capacity = .ok builder)
    (hwrapped : sourcedLength stream = UInt64.size) (hsource : source < stateCapacity)
    (hroom : batch.length ≤ capacity) :
    (builder.showAll (stream ++ [(some source, batch)])).2.getLast? = some (.ok .proceed) := by
  have hstart := kept_create (α := α) hcreate
  have hlimit := hstart.recorded.capacity_lt
  obtain ⟨hcapacity, hblocks, -⟩ := builder.showAll_advances stream
  have hzero := toNat_nextOffset_showAll hcreate stream
  rw [hwrapped, Nat.mod_self] at hzero
  rw [hstart.capacity_eq] at hcapacity
  rw [hstart.size_blocks] at hblocks
  dsimp only at hlimit
  rw [hstart.capacity_eq] at hlimit
  have hfits : ((builder.showAll stream).1.nextOffset.toNat + (batch.map Transition.edge).length) ≤
      (builder.showAll stream).1.capacity := by
    rw [hzero, hcapacity, List.length_map]
    omega
  have happend := append_of_fits (α := α) source
    (by simp only [UInt32.size, UInt64.size] at *; omega) hfits (by rw [hblocks]; exact hsource)
  rw [showAll_concat, observe, happend, List.getLast?_concat]

end GraphBuilder

end Hazard
