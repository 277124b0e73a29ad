import Etle.Transfer.AttemptTrace
import Etle.State.OneByteShare

/-!
# Bounds of the windowed loop

Whatever a peer replies, the loop keeps no more requests in flight than its window allows, requests
no chunk twice, waits for at most one reply per request, and comes to an end.  If it ends without an
error, everything the peer has is completed.
-/

namespace Etle

open Std (TreeMap TreeSet)

/-- The step waits for a reply. -/
def LoopStep.receives : LoopStep → Bool
  | (_, .receive _ _, _) => true
  | _ => false

section

variable {prims : Primitives} {outputDir : Option PathBuf} {peerAvailable : TreeSet UInt32}
  {requestWindow : Nat} {manifest : Manifest} {completed : TreeSet UInt32}
  {state next : WindowedDownload} {event : WindowEvent}

/-! ## The window -/

theorem maybeGrowRequestWindow_bounds (maxRequestWindow : Nat) (loop : WindowLoop) :
    loop.activeRequestWindow ≤
        (maybeGrowRequestWindow maxRequestWindow loop).activeRequestWindow ∧
      (maybeGrowRequestWindow maxRequestWindow loop).activeRequestWindow ≤
        max loop.activeRequestWindow maxRequestWindow := by
  unfold maybeGrowRequestWindow
  split
  · exact ⟨Nat.le_refl _, Nat.le_max_left _ _⟩
  · split
    · exact ⟨Nat.le_refl _, Nat.le_max_left _ _⟩
    · exact ⟨by dsimp only; omega, by dsimp only; omega⟩

/-- A step never narrows the window, and widens it up to its maximum only. -/
theorem window_of_step
    (step : (downloadMissingChunksWindowed prims outputDir peerAvailable requestWindow).step state
      event = some next) :
    state.loop.activeRequestWindow ≤ next.loop.activeRequestWindow ∧
      next.loop.activeRequestWindow ≤
        max state.loop.activeRequestWindow (max requestWindow 1) := by
  cases event with
  | complete =>
      simp only [downloadMissingChunksWindowed, completeNext] at step
      split at step
      · obtain rfl := Option.some.inj step
        exact maybeGrowRequestWindow_bounds (max requestWindow 1) {
          state.loop with
          completed := state.loop.completed.insert _
          chunks := _
          chunksSinceWindowGrowth := state.loop.chunksSinceWindowGrowth + 1 }
      · cases step
  | request | receive | persist | finish =>
      cases windowMove_of_step step <;> exact ⟨Nat.le_refl _, Nat.le_max_left _ _⟩

/-- The requests in flight fit the window, which stays between one and its maximum. -/
structure WindowedDownload.Fits (requestWindow : Nat) (state : WindowedDownload) : Prop where
  inFlight : state.loop.inFlight.size ≤ state.loop.activeRequestWindow
  positive : 1 ≤ state.loop.activeRequestWindow
  bounded : state.loop.activeRequestWindow ≤ max 1 requestWindow

theorem windowFits_initial (manifest : Manifest) (completed : TreeSet UInt32)
    (chunks : TreeMap UInt32 EncryptedChunk) (session : LibrarySession) (requestWindow : Nat) :
    (WindowedDownload.initial manifest completed chunks session requestWindow).Fits
      requestWindow := by
  refine ⟨?_, ?_, ?_⟩ <;>
    simp only [WindowedDownload.initial, WindowLoop.initial, initialRequestWindow,
      TreeMap.size_emptyc]
  · omega
  · omega
  · omega

theorem windowFits_of_step (state : WindowedDownload) (event : WindowEvent)
    (next : WindowedDownload) (fits : state.Fits requestWindow)
    (step : (downloadMissingChunksWindowed prims outputDir peerAvailable requestWindow).step state
      event = some next) : next.Fits requestWindow := by
  obtain ⟨wider, limited⟩ := window_of_step step
  obtain ⟨inFlight, positive, bounded⟩ := fits
  have smaller : next.loop.inFlight.size ≤ next.loop.activeRequestWindow := by
    cases windowMove_of_step step with
    | @send entry rest running room here missing has =>
        have grown := TreeMap.size_insert_le (t := state.loop.inFlight) (k := entry.index)
          (v := entry)
        dsimp only at wider ⊢
        omega
    | @persist elapsed frame temp index chunk session received persisted =>
        have shrunk := TreeMap.size_erase_le (t := state.loop.inFlight) (k := index)
        dsimp only at wider ⊢
        omega
    | skip | sendFails | receive | receiveFails | receiveMessage | receiveMessageFails
    | persistFails | complete | finish => exact inFlight.trans wider
  exact ⟨smaller, by omega, by omega⟩

/-! ## The requests -/

/-- How a state accounts for the requests made so far. -/
structure WindowedDownload.Accounts (manifest : Manifest) (peerAvailable completed : TreeSet UInt32)
    (requests : List UInt32) (state : WindowedDownload) : Prop where
  wanted : ∀ index ∈ requests, index ∈ peerAvailable ∧ index ∉ completed
  kept : ∀ index ∈ completed, index ∈ state.loop.completed
  gained : ∀ index ∈ state.loop.completed, index ∈ completed ∨ index ∈ requests
  inFlight : ∀ index ∈ state.loop.inFlight, index ∈ requests
  stored : ∀ index ∈ state.phase.stored, index ∈ requests
  ordered : requests.Sublist manifest.indices
  /-- A request whose send fails has been made before its entry counts as passed. -/
  passed : (∃ error, state.phase = .ended (.error error)) ∨
    ∃ finished, manifest.chunks = finished ++ state.loop.todo ∧
      requests.Sublist (finished.map ChunkMeta.index) ∧
      ∀ entry ∈ finished, entry.index ∈ peerAvailable →
        entry.index ∈ state.loop.completed ∨ entry.index ∈ state.loop.inFlight ∨
          entry.index ∈ state.phase.stored

theorem accounts_initial (chunks : TreeMap UInt32 EncryptedChunk) (session : LibrarySession) :
    (WindowedDownload.initial manifest completed chunks session requestWindow).Accounts manifest
      peerAvailable completed [] where
  wanted := by simp
  kept := fun _ member => member
  gained := fun _ member => .inl member
  inFlight := by simp [WindowedDownload.initial, WindowLoop.initial]
  stored := by simp [WindowedDownload.initial, WindowPhase.stored]
  ordered := List.nil_sublist _
  passed := .inr ⟨[], by simp [WindowedDownload.initial, WindowLoop.initial]⟩

/-- A step requests at most the next entry, and only one that the peer has and that is missing. -/
theorem requested_of_step {index : UInt32}
    (requested : LoopStep.requested peerAvailable (state, event, next) = some index) :
    ∃ failure entry rest, event = .request failure ∧ state.phase = .running ∧
      state.loop.todo = entry :: rest ∧ entry.index = index ∧
      index ∉ state.loop.completed ∧ index ∈ peerAvailable := by
  cases event with
  | request failure =>
      simp only [LoopStep.requested] at requested
      split at requested
      · rename_i running turn
        obtain ⟨entry, rest, -, here, ⟨rfl, -⟩ | ⟨rfl, missing, has, -⟩⟩ := next_eq_some turn
        · cases requested
        · obtain rfl := Option.some.inj requested
          exact ⟨failure, entry, rest, rfl, running, here, rfl, missing, has⟩
      · cases requested
  | receive | persist | complete | finish => cases requested

theorem requested_skip {failure : Option ErrorKind} {entry : ChunkMeta} {rest : List ChunkMeta}
    (here : state.loop.todo = entry :: rest)
    (needless : entry.index ∈ state.loop.completed ∨ entry.index ∉ peerAvailable) :
    LoopStep.requested peerAvailable (state, .request failure, next) = none := by
  cases requested : LoopStep.requested peerAvailable (state, .request failure, next) with
  | none => rfl
  | some index =>
      obtain ⟨_, other, others, -, -, there, rfl, missing, has⟩ := requested_of_step requested
      obtain ⟨rfl, -⟩ := by simpa [here] using there
      exact (needless.elim missing fun lacks => lacks has).elim

theorem requested_send {failure : Option ErrorKind} {entry : ChunkMeta} {rest : List ChunkMeta}
    (running : state.phase = .running)
    (room : state.loop.inFlight.size < state.loop.activeRequestWindow)
    (here : state.loop.todo = entry :: rest) (missing : entry.index ∉ state.loop.completed)
    (has : entry.index ∈ peerAvailable) :
    LoopStep.requested peerAvailable (state, .request failure, next) = some entry.index := by
  have absent := TreeSet.contains_eq_false_of_not_mem missing
  have present := TreeSet.contains_iff_mem.mpr has
  simp [LoopStep.requested, running, WindowLoop.next, room, here, absent, present]

/-- A step that leaves the loop's variables alone and stores nothing keeps the account. -/
theorem WindowedDownload.Accounts.of_loop_eq {requests : List UInt32}
    (accounts : state.Accounts manifest peerAvailable completed requests)
    (same : next.loop = state.loop) (stored : next.phase.stored = state.phase.stored)
    (going : ∀ error, state.phase ≠ .ended (.error error)) :
    next.Accounts manifest peerAvailable completed requests where
  wanted := accounts.wanted
  kept := by rw [same]; exact accounts.kept
  gained := by rw [same]; exact accounts.gained
  inFlight := by rw [same]; exact accounts.inFlight
  stored := by rw [stored]; exact accounts.stored
  ordered := accounts.ordered
  passed := by
    obtain ⟨error, failed⟩ | passed := accounts.passed
    · exact (going error failed).elim
    · exact .inr (by rw [same, stored]; exact passed)

/-- Storing a reply keeps the account. -/
theorem WindowedDownload.Accounts.of_persist {requests : List UInt32} {index : UInt32}
    (accounts : state.Accounts manifest peerAvailable completed requests)
    (going : ∀ error, state.phase ≠ .ended (.error error))
    (unstored : state.phase.stored = []) (stored : next.phase.stored = [index])
    (flying : index ∈ state.loop.inFlight)
    (same : next.loop = { state.loop with inFlight := state.loop.inFlight.erase index }) :
    next.Accounts manifest peerAvailable completed requests where
  wanted := accounts.wanted
  kept := by rw [same]; exact accounts.kept
  gained := by rw [same]; exact accounts.gained
  inFlight := by
    rw [same]
    intro other member
    exact accounts.inFlight other (TreeMap.mem_of_mem_erase member)
  stored := by
    intro other member
    obtain rfl : other = index := by simpa [stored] using member
    exact accounts.inFlight other flying
  ordered := accounts.ordered
  passed := by
    obtain ⟨error, failed⟩ | ⟨finished, split, asked, settled⟩ := accounts.passed
    · exact (going error failed).elim
    · refine .inr ⟨finished, by rw [same]; exact split, asked, ?_⟩
      intro entry member has
      rw [same, stored]
      by_cases here : entry.index = index
      · exact .inr (.inr (by simp [here]))
      · obtain done | inFlight | impossible := settled entry member has
        · exact .inl done
        · refine .inr (.inl ?_)
          simp [TreeMap.mem_erase, inFlight, Ne.symm here]
        · simp [unstored] at impossible

/-- Counting a stored chunk as completed keeps the account. -/
theorem WindowedDownload.Accounts.of_complete {requests : List UInt32} {index : UInt32}
    (accounts : state.Accounts manifest peerAvailable completed requests)
    (going : ∀ error, state.phase ≠ .ended (.error error))
    (stored : state.phase.stored = [index]) (cleared : next.phase.stored = [])
    (todo : next.loop.todo = state.loop.todo) (inFlight : next.loop.inFlight = state.loop.inFlight)
    (counted : next.loop.completed = state.loop.completed.insert index) :
    next.Accounts manifest peerAvailable completed requests where
  wanted := accounts.wanted
  kept := by
    intro other member
    rw [counted, TreeSet.mem_insert]
    exact .inr (accounts.kept other member)
  gained := by
    intro other member
    rw [counted, TreeSet.mem_insert, Std.LawfulEqCmp.compare_eq_iff_eq] at member
    obtain rfl | old := member
    · exact .inr (accounts.stored _ (by simp [stored]))
    · exact accounts.gained other old
  inFlight := by rw [inFlight]; exact accounts.inFlight
  stored := by simp [cleared]
  ordered := accounts.ordered
  passed := by
    obtain ⟨error, failed⟩ | ⟨finished, split, asked, settled⟩ := accounts.passed
    · exact (going error failed).elim
    · refine .inr ⟨finished, by rw [todo]; exact split, asked, ?_⟩
      intro entry member has
      rw [counted, TreeSet.mem_insert, Std.LawfulEqCmp.compare_eq_iff_eq, inFlight]
      obtain done | flying | here := settled entry member has
      · exact .inl (.inr done)
      · exact .inr (.inl flying)
      · refine .inl (.inl ?_)
        rw [stored, List.mem_singleton] at here
        exact here.symm

/-- Passing over an entry that is completed or unavailable keeps the account. -/
theorem WindowedDownload.Accounts.of_skip {requests : List UInt32} {entry : ChunkMeta}
    {rest : List ChunkMeta} (accounts : state.Accounts manifest peerAvailable completed requests)
    (running : state.phase = .running) (here : state.loop.todo = entry :: rest)
    (needless : entry.index ∈ state.loop.completed ∨ entry.index ∉ peerAvailable) :
    ({ state with loop := { state.loop with todo := rest } } : WindowedDownload).Accounts manifest
      peerAvailable completed requests where
  wanted := accounts.wanted
  kept := accounts.kept
  gained := accounts.gained
  inFlight := accounts.inFlight
  stored := accounts.stored
  ordered := accounts.ordered
  passed := by
    obtain ⟨error, failed⟩ | ⟨finished, split, asked, settled⟩ := accounts.passed
    · simp [running] at failed
    · refine .inr ⟨finished ++ [entry], by simp [split, here], ?_, ?_⟩
      · rw [List.map_append]
        exact asked.trans (List.sublist_append_left _ _)
      · intro other member has
        obtain old | rfl : other ∈ finished ∨ other = entry := by simpa using member
        · exact settled other old has
        · exact .inl (needless.elim id fun lacks => (lacks has).elim)

/-- A request for the next entry is a request for an entry of the manifest not asked for yet. -/
theorem WindowedDownload.Accounts.sublist_append {requests : List UInt32} {entry : ChunkMeta}
    {rest : List ChunkMeta} (accounts : state.Accounts manifest peerAvailable completed requests)
    (running : state.phase = .running) (here : state.loop.todo = entry :: rest) :
    (requests ++ [entry.index]).Sublist manifest.indices := by
  obtain ⟨error, failed⟩ | ⟨finished, split, asked, -⟩ := accounts.passed
  · simp [running] at failed
  · rw [Manifest.indices, split, here, List.map_append, List.map_cons]
    exact asked.append ((List.nil_sublist _).cons_cons _)

theorem WindowedDownload.Accounts.wanted_append {requests : List UInt32} {index : UInt32}
    (accounts : state.Accounts manifest peerAvailable completed requests)
    (missing : index ∉ state.loop.completed) (has : index ∈ peerAvailable) :
    ∀ other ∈ requests ++ [index], other ∈ peerAvailable ∧ other ∉ completed := by
  intro other member
  obtain old | rfl : other ∈ requests ∨ other = index := by simpa using member
  · exact accounts.wanted other old
  · exact ⟨has, fun old => missing (accounts.kept _ old)⟩

/-- Requesting the next entry keeps the account. -/
theorem WindowedDownload.Accounts.of_send {requests : List UInt32} {entry : ChunkMeta}
    {rest : List ChunkMeta} (accounts : state.Accounts manifest peerAvailable completed requests)
    (running : state.phase = .running) (here : state.loop.todo = entry :: rest)
    (missing : entry.index ∉ state.loop.completed) (has : entry.index ∈ peerAvailable) :
    ({ state with
        loop := { state.loop with
          todo := rest, inFlight := state.loop.inFlight.insert entry.index entry } } :
      WindowedDownload).Accounts manifest peerAvailable completed (requests ++ [entry.index]) where
  wanted := accounts.wanted_append missing has
  kept := accounts.kept
  gained := fun index member => (accounts.gained index member).imp_right (List.mem_append_left _)
  inFlight := by
    intro index member
    rw [TreeMap.mem_insert, Std.LawfulEqCmp.compare_eq_iff_eq] at member
    obtain rfl | old := member
    · simp
    · exact List.mem_append_left _ (accounts.inFlight index old)
  stored := fun index member => List.mem_append_left _ (accounts.stored index member)
  ordered := accounts.sublist_append running here
  passed := by
    obtain ⟨error, failed⟩ | ⟨finished, split, asked, settled⟩ := accounts.passed
    · simp [running] at failed
    · refine .inr ⟨finished ++ [entry], by simp [split, here], ?_, ?_⟩
      · rw [List.map_append]
        exact asked.append (List.Sublist.refl _)
      · intro other member has
        obtain old | rfl : other ∈ finished ∨ other = entry := by simpa using member
        · obtain done | flying | stored := settled other old has
          · exact .inl done
          · exact .inr (.inl (TreeMap.mem_insert.mpr (.inr flying)))
          · exact .inr (.inr stored)
        · exact .inr (.inl TreeMap.mem_insert_self)

/-- A request whose send fails keeps the account. -/
theorem WindowedDownload.Accounts.of_sendFails {requests : List UInt32}
    {failure : Option ErrorKind} {error : NetworkError}
    (accounts : state.Accounts manifest peerAvailable completed requests) :
    ({ state with phase := .ended (.error error) } : WindowedDownload).Accounts manifest
      peerAvailable completed
      (requests ++
        (LoopStep.requested peerAvailable (state, .request failure, next)).toList) := by
  cases requested : LoopStep.requested peerAvailable (state, .request failure, next) with
  | none =>
      exact ⟨by simpa using accounts.wanted, accounts.kept, by simpa using accounts.gained,
        by simpa using accounts.inFlight, by simp [WindowPhase.stored],
        by simpa using accounts.ordered, .inl ⟨error, rfl⟩⟩
  | some index =>
      obtain ⟨_, entry, rest, -, running, here, rfl, missing, has⟩ := requested_of_step requested
      refine ⟨accounts.wanted_append missing has, accounts.kept, ?_, ?_,
        by simp [WindowPhase.stored],
        accounts.sublist_append running here, .inl ⟨error, rfl⟩⟩
      · exact fun index member =>
          (accounts.gained index member).imp_right (List.mem_append_left _)
      · exact fun index member => List.mem_append_left _ (accounts.inFlight index member)

/-- Every step keeps the account of the requests, the one it makes included. -/
theorem accounts_of_step {requests : List UInt32}
    (accounts : state.Accounts manifest peerAvailable completed requests)
    (step : (downloadMissingChunksWindowed prims outputDir peerAvailable requestWindow).step state
      event = some next) :
    next.Accounts manifest peerAvailable completed
      (requests ++ (LoopStep.requested peerAvailable (state, event, next)).toList) := by
  cases windowMove_of_step step with
  | skip running room here needless =>
      rw [requested_skip here needless, Option.toList_none, List.append_nil]
      exact accounts.of_skip running here needless
  | send running room here missing has =>
      rw [requested_send running room here missing has, Option.toList_some]
      exact accounts.of_send running here missing has
  | sendFails running failed => exact accounts.of_sendFails
  | receive running | receiveFails running | receiveMessage running | receiveMessageFails running
  | finish running =>
      rw [LoopStep.requested, Option.toList_none, List.append_nil]
      · exact accounts.of_loop_eq rfl (by simp [running, WindowPhase.stored]) (by simp [running])
      · simp
  | persistFails received =>
      rw [LoopStep.requested, Option.toList_none, List.append_nil]
      · exact accounts.of_loop_eq rfl (by simp [received, WindowPhase.stored]) (by simp [received])
      · simp
  | persist received persisted =>
      rw [LoopStep.requested, Option.toList_none, List.append_nil]
      · obtain ⟨entry, _, taken, -⟩ := persistReply_eq_ok persisted
        exact accounts.of_persist (by simp [received]) (by simp [received, WindowPhase.stored]) rfl
          (mem_inFlight_of_takeInFlight taken) rfl
      · simp
  | complete persisted =>
      rw [LoopStep.requested, Option.toList_none, List.append_nil]
      · exact accounts.of_complete (by simp [persisted]) (by simp [persisted, WindowPhase.stored])
          rfl rfl rfl rfl
      · simp

/-! ## The replies -/

/-- How many more replies a state may wait for without another request. -/
def WindowedDownload.pending (state : WindowedDownload) : Nat :=
  match state.phase with
  | .running => state.loop.inFlight.size
  | .received _ _ => state.loop.inFlight.size - 1
  | .persisted _ _ => state.loop.inFlight.size
  | .ended _ => 0

theorem size_pos_of_waiting (waiting : state.loop.inFlight.isEmpty = false) :
    0 < state.loop.inFlight.size := by
  have filled : state.loop.inFlight.size ≠ 0 := by
    simpa [TreeMap.isEmpty_eq_size_eq_zero] using waiting
  exact Nat.pos_of_ne_zero filled

/-- A step waits for no reply that was not requested. -/
theorem pending_of_step
    (step : (downloadMissingChunksWindowed prims outputDir peerAvailable requestWindow).step state
      event = some next) :
    (LoopStep.receives (state, event, next)).toNat + next.pending ≤
      state.pending +
        (LoopStep.requested peerAvailable (state, event, next)).toList.length := by
  cases windowMove_of_step step with
  | skip running =>
      simp only [LoopStep.receives, WindowedDownload.pending, running, Bool.toNat_false]
      omega
  | @send entry rest running room here missing has =>
      have grown := TreeMap.size_insert_le (t := state.loop.inFlight) (k := entry.index)
        (v := entry)
      rw [requested_send running room here missing has]
      simp only [LoopStep.receives, WindowedDownload.pending, running, Bool.toNat_false,
        Option.toList_some, List.length_singleton]
      omega
  | sendFails | persistFails | finish => simp [LoopStep.receives, WindowedDownload.pending]
  | receive running full waiting | receiveFails running full waiting
  | receiveMessage running full waiting | receiveMessageFails running full waiting =>
      have filled := size_pos_of_waiting waiting
      simp only [LoopStep.receives, WindowedDownload.pending, running, Bool.toNat_true]
      omega
  | @persist elapsed frame temp index chunk session received persisted =>
      obtain ⟨entry, _, taken, -⟩ := persistReply_eq_ok persisted
      have shrunk := TreeMap.size_erase (t := state.loop.inFlight) (k := index)
      rw [if_pos (TreeMap.contains_iff_mem.mpr (mem_inFlight_of_takeInFlight taken))] at shrunk
      simp only [LoopStep.receives, WindowedDownload.pending, received, Bool.toNat_false]
      omega
  | complete persisted =>
      simp only [LoopStep.receives, WindowedDownload.pending, persisted, Bool.toNat_false]
      omega

/-! ## The end of the loop -/

/-- A bound on the steps that are left. -/
def WindowedDownload.remaining (state : WindowedDownload) : Nat :=
  4 * state.loop.todo.length +
    match state.phase with
    | .running => 3 * state.loop.inFlight.size + 1
    | .received _ _ => 3 * (state.loop.inFlight.size - 1) + 3
    | .persisted _ _ => 3 * state.loop.inFlight.size + 2
    | .ended _ => 0

theorem remaining_of_step (state : WindowedDownload) (event : WindowEvent)
    (next : WindowedDownload)
    (step : (downloadMissingChunksWindowed prims outputDir peerAvailable requestWindow).step state
      event = some next) : next.remaining < state.remaining := by
  cases windowMove_of_step step with
  | skip running room here =>
      simp only [WindowedDownload.remaining, running, here, List.length_cons]
      omega
  | @send entry rest running room here missing has =>
      have grown := TreeMap.size_insert_le (t := state.loop.inFlight) (k := entry.index)
        (v := entry)
      simp only [WindowedDownload.remaining, running, here, List.length_cons]
      omega
  | sendFails running | finish running | receiveFails running | receiveMessageFails running =>
      simp only [WindowedDownload.remaining, running]
      omega
  | persistFails received =>
      simp only [WindowedDownload.remaining, received]
      omega
  | receive running full waiting | receiveMessage running full waiting =>
      have filled := size_pos_of_waiting waiting
      simp only [WindowedDownload.remaining, running]
      omega
  | @persist elapsed frame temp index chunk session received persisted =>
      obtain ⟨entry, _, taken, -⟩ := persistReply_eq_ok persisted
      have shrunk := TreeMap.size_erase (t := state.loop.inFlight) (k := index)
      rw [if_pos (TreeMap.contains_iff_mem.mpr (mem_inFlight_of_takeInFlight taken))] at shrunk
      simp only [WindowedDownload.remaining, received]
      omega
  | complete persisted =>
      simp only [WindowedDownload.remaining, persisted]
      omega

/-- The loop takes its next step, whatever the environment does in it. -/
def WindowedDownload.Continues (machine : Machine WindowedDownload WindowEvent)
    (state : WindowedDownload) : Prop :=
  (∀ failure, (machine.step state (.request failure)).isSome) ∨
    (∀ reply stagingTimestamp, (machine.step state (.receive reply stagingTimestamp)).isSome) ∨
    (∀ elapsed, (machine.step state (.persist elapsed)).isSome) ∨
    (machine.step state .complete).isSome ∨ (machine.step state .finish).isSome

/-- The loop always continues until it has ended. -/
theorem continues_or_ended (state : WindowedDownload) :
    state.Continues
        (downloadMissingChunksWindowed prims outputDir peerAvailable requestWindow) ∨
      ∃ outcome, state.phase = .ended outcome := by
  cases phase : state.phase with
  | running =>
      left
      cases turn : state.loop.next peerAvailable with
      | some turned =>
          obtain ⟨request, loop⟩ := turned
          refine .inl fun failure => ?_
          cases request <;> cases failure <;>
            simp [downloadMissingChunksWindowed, requestNext, phase, turn]
      | none =>
          cases waiting : state.loop.inFlight.isEmpty with
          | true =>
              refine .inr (.inr (.inr (.inr ?_)))
              simp [downloadMissingChunksWindowed, finishLoop, phase, turn, waiting]
          | false =>
              refine .inr (.inl fun reply stagingTimestamp => ?_)
              simp only [downloadMissingChunksWindowed, receiveNext, phase, turn, waiting]
              split
              · contradiction
              · split
                · split
                  · rfl
                  · split <;> rfl
                · split <;> rfl
  | received frame temp =>
      refine .inl (.inr (.inr (.inl fun elapsed => ?_)))
      simp only [downloadMissingChunksWindowed, persistNext, phase]
      split <;> rfl
  | persisted index chunk =>
      refine .inl (.inr (.inr (.inr (.inl ?_))))
      simp [downloadMissingChunksWindowed, completeNext, phase]
  | ended outcome => exact .inr ⟨outcome, rfl⟩

/-- The loop ends without an error only when nothing is left to request and nothing in flight. -/
theorem finished_of_step (fits : state.Fits requestWindow)
    (step : (downloadMissingChunksWindowed prims outputDir peerAvailable requestWindow).step state
      event = some next) (ended : next.phase = .ended (.ok ())) :
    next.loop.todo = [] ∧ next.loop.inFlight.isEmpty = true := by
  cases windowMove_of_step step with
  | finish running full empty =>
      exact ⟨todo_eq_nil_of_next_eq_none fits.positive empty full, empty⟩
  | skip running | send running => simp [running] at ended
  | sendFails | receive | receiveFails | receiveMessage | receiveMessageFails | persist
  | persistFails | complete => simp at ended

/-! ## Whole runs -/

/-- What a state and the steps that led to it keep between them. -/
structure WindowedDownload.Bounded (manifest : Manifest) (peerAvailable completed : TreeSet UInt32)
    (requestWindow : Nat) (state : WindowedDownload) (steps : List LoopStep) : Prop where
  fits : state.Fits requestWindow
  accounts : state.Accounts manifest peerAvailable completed
    (steps.filterMap (LoopStep.requested peerAvailable))
  replies : steps.countP LoopStep.receives + state.pending ≤
    (steps.filterMap (LoopStep.requested peerAvailable)).length
  finished : state.phase = .ended (.ok ()) →
    state.loop.todo = [] ∧ state.loop.inFlight.isEmpty = true

theorem bounded_initial (chunks : TreeMap UInt32 EncryptedChunk) (session : LibrarySession) :
    (WindowedDownload.initial manifest completed chunks session requestWindow).Bounded manifest
      peerAvailable completed requestWindow [] where
  fits := windowFits_initial manifest completed chunks session requestWindow
  accounts := accounts_initial chunks session
  replies := by
    simp [WindowedDownload.pending, WindowedDownload.initial, WindowLoop.initial]
  finished := fun ended => by simp [WindowedDownload.initial] at ended

theorem bounded_of_step (state : WindowedDownload) (event : WindowEvent)
    (next : WindowedDownload) (steps : List LoopStep)
    (bounded : state.Bounded manifest peerAvailable completed requestWindow steps)
    (step : (downloadMissingChunksWindowed prims outputDir peerAvailable requestWindow).step state
      event = some next) :
    next.Bounded manifest peerAvailable completed requestWindow
      (steps ++ [(state, event, next)]) := by
  have requests : (steps ++ [(state, event, next)]).filterMap (LoopStep.requested peerAvailable) =
      steps.filterMap (LoopStep.requested peerAvailable) ++
        (LoopStep.requested peerAvailable (state, event, next)).toList := by
    cases requested : LoopStep.requested peerAvailable (state, event, next) <;> simp [requested]
  have waits : (steps ++ [(state, event, next)]).countP LoopStep.receives =
      steps.countP LoopStep.receives + (LoopStep.receives (state, event, next)).toNat := by
    cases receives : LoopStep.receives (state, event, next) <;> simp [receives]
  refine ⟨windowFits_of_step state event next bounded.fits step, ?_, ?_,
    finished_of_step bounded.fits step⟩
  · rw [requests]
    exact accounts_of_step bounded.accounts step
  · have balance := pending_of_step step
    have before := bounded.replies
    rw [requests, waits, List.length_append]
    omega

/-- What is completed at the end is what was completed before and what the peer has. -/
theorem WindowedDownload.Bounded.mem_completed {steps : List LoopStep}
    (bounded : state.Bounded manifest peerAvailable completed requestWindow steps)
    (ended : state.phase = .ended (.ok ())) (index : UInt32) :
    index ∈ state.loop.completed ↔
      index ∈ completed ∨ index ∈ manifest.indices ∧ index ∈ peerAvailable := by
  obtain ⟨-, accounts, -, finished⟩ := bounded
  obtain ⟨none_left, none_flying⟩ := finished ended
  constructor
  · intro member
    refine (accounts.gained index member).imp_right fun requested => ?_
    exact ⟨accounts.ordered.subset requested, (accounts.wanted index requested).1⟩
  · rintro (old | ⟨listed, has⟩)
    · exact accounts.kept index old
    · obtain ⟨error, failed⟩ | ⟨passed, split, -, settled⟩ := accounts.passed
      · simp [ended] at failed
      · rw [none_left, List.append_nil] at split
        obtain ⟨entry, member, rfl⟩ := List.mem_map.mp listed
        rw [split] at member
        obtain done | flying | stored := settled entry member has
        · exact done
        · rw [TreeMap.isEmpty_iff_forall_not_mem] at none_flying
          exact (none_flying _ flying).elim
        · simp [ended, WindowPhase.stored] at stored

end

/-- Against any peer and in every state that it reaches, the loop keeps its requests in flight
within a window that only grows up to its maximum, requests each chunk at most once and only if the
peer has it and it is missing, waits for at most one reply per request and comes to an end; if it
ends without an error, everything of the manifest that the peer has is completed. -/
theorem downloadMissingChunksWindowed_bounds (prims : Primitives) (outputDir : Option PathBuf)
    (peerAvailable completed : TreeSet UInt32) (requestWindow : Nat) (manifest : Manifest)
    (distinct : manifest.indices.Nodup) (chunks : TreeMap UInt32 EncryptedChunk)
    (session : LibrarySession) (events : List WindowEvent) (final : WindowedDownload)
    (run : (downloadMissingChunksWindowed prims outputDir peerAvailable requestWindow).run
      (.initial manifest completed chunks session requestWindow) events = some final) :
    let loop := downloadMissingChunksWindowed prims outputDir peerAvailable requestWindow
    let steps := loop.trace (.initial manifest completed chunks session requestWindow) events
    let requests := steps.filterMap (LoopStep.requested peerAvailable)
    final.Fits requestWindow ∧
      (∀ step ∈ steps,
        step.1.loop.activeRequestWindow ≤ step.2.2.loop.activeRequestWindow) ∧
      requests.Nodup ∧
      (∀ step ∈ steps, ∀ index, LoopStep.requested peerAvailable step = some index →
        index ∈ manifest.indices ∧ index ∈ peerAvailable ∧ index ∉ step.1.loop.completed) ∧
      steps.countP LoopStep.receives ≤ requests.length ∧
      (final.Continues loop ∨ ∃ outcome, final.phase = .ended outcome) ∧
      events.length ≤ 4 * manifest.chunks.length + 1 ∧
      (final.phase = .ended (.ok ()) → ∀ index, index ∈ final.loop.completed ↔
        index ∈ completed ∨ index ∈ manifest.indices ∧ index ∈ peerAvailable) := by
  intro loop steps requests
  have bounded : final.Bounded manifest peerAvailable completed requestWindow steps := by
    simpa using Machine.invariant_of_trace bounded_of_step (bounded_initial chunks session) run
  refine ⟨bounded.fits, ?_, bounded.accounts.ordered.nodup distinct, ?_, ?_,
    continues_or_ended final, ?_, bounded.mem_completed⟩
  · rintro ⟨state, event, next⟩ taken
    exact (window_of_step (Machine.reaches_of_mem_trace taken).2).1
  · rintro ⟨state, event, next⟩ taken index requested
    obtain ⟨-, -, -, -, -, -, -, missing, has⟩ := requested_of_step requested
    have asked : index ∈ requests := List.mem_filterMap.mpr ⟨_, taken, requested⟩
    exact ⟨bounded.accounts.ordered.subset asked, has, missing⟩
  · exact (Nat.le_add_right _ _).trans bounded.replies
  · have short := Machine.length_le_of_measure WindowedDownload.remaining remaining_of_step run
    simp only [WindowedDownload.remaining, WindowedDownload.initial, WindowLoop.initial,
      TreeMap.size_emptyc] at short
    omega

/-- The loop has ended without an error. -/
def WindowedDownload.succeeded (state : WindowedDownload) : Bool :=
  match state.phase with
  | .ended (.ok ()) => true
  | _ => false

/-- A download into memory of the chunk that is missing from a share of two. -/
theorem downloadMissingChunksWindowed_bounds_one_missing :
    ∃ final,
      (downloadMissingChunksWindowed transparentPrimitives none {0, 1} 0).run
        (.initial (oneByteManifest [0, 1]) {1} ∅
          { disk := fun _ => .absent, active := none } 0)
        [.request none, .receive (some (.encoded (.chunk 0 (oneByteChunk 0)))) 0, .persist false,
          .complete, .request none, .finish] = some final ∧
      final.phase = .ended (.ok ()) ∧ 0 ∈ final.loop.completed := by
  have ends : ((downloadMissingChunksWindowed transparentPrimitives none {0, 1} 0).run
      (.initial (oneByteManifest [0, 1]) {1} ∅
        { disk := fun _ => .absent, active := none } 0)
      [.request none, .receive (some (.encoded (.chunk 0 (oneByteChunk 0)))) 0, .persist false,
        .complete, .request none, .finish]).any WindowedDownload.succeeded = true := by
    decide +kernel
  obtain ⟨final, run, succeeded⟩ := (Option.any_eq_true _ _).mp ends
  have ended : final.phase = .ended (.ok ()) := by
    unfold WindowedDownload.succeeded at succeeded
    split at succeeded
    · assumption
    · cases succeeded
  obtain ⟨-, -, -, -, -, -, -, completes⟩ :=
    downloadMissingChunksWindowed_bounds transparentPrimitives none {0, 1} {1} 0
      (oneByteManifest [0, 1]) (by simp) ∅ { disk := fun _ => .absent, active := none } _ final run
  exact ⟨final, run, ended, (completes ended 0).mpr (.inr ⟨by simp, by simp⟩)⟩

end Etle
