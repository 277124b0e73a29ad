import Etle.Gui.Display
import Etle.Gui.Controls
import Etle.Gui.DeleteConfirmation

/-!
# The client and the daemons it talks to

Every command and every watch has a thread of its own, which outlives a change of the socket.  So
late responses of one daemon and events of an old watch reach a client that talks to another daemon.
The messages of the client to itself are among those that may come at any time.
-/

namespace Etle

/-- A command that was sent and whose response has not been handled yet. -/
structure Outstanding where
  socketPath : String
  kind : IpcRequestKind
  command : IpcCommand

/-- A watch that has not stopped yet. -/
structure OpenWatch where
  socketPath : String
  generation : Nat

/-- The client with its threads, and the shares that daemons have told it about. -/
structure AttachedClient where
  gui : EtleGui
  requests : List Outstanding
  watches : List OpenWatch
  told : List (String × IpcShareSummary)

def AttachedClient.new (init : GuiInit) : AttachedClient where
  gui := .new init
  requests := []
  watches := []
  told := []

inductive SessionStep where
  /-- What the user does, a tick, or a message of the client to itself. -/
  | message (message : AppInput)
  /-- The response to a request, which may be a failure. -/
  | respond (request : Nat) (result : Except String IpcResponse)
  | notify (watch : Nat) (event : IpcEvent)
  | stop (watch : Nat) (error : String)

/-- The commands that effects send. -/
def requestsOf (effects : List GuiEffect) : List Outstanding :=
  effects.filterMap fun
    | .sendCommand socketPath kind command => some { socketPath, kind, command }
    | _ => none

/-- The watches that effects open. -/
def openedWatches (effects : List GuiEffect) : List OpenWatch :=
  effects.filterMap fun
    | .watch socketPath generation => some { socketPath, generation }
    | _ => none

namespace AppInput

/-- The message comes from a daemon. -/
def fromDaemon : AppInput → Bool
  | .ipcResponse _ _ _ | .ipcEvent _ _ | .ipcWatchStopped _ _ => true
  | _ => false

/-- The shares that a message tells the client about. -/
def sharesTold : AppInput → List IpcShareSummary
  | .ipcResponse _ _ (.ok (.shares shares)) => shares
  | .ipcResponse _ _ (.ok (.shareAdded share)) | .ipcEvent _ (.shareUpdated share) => [share]
  | _ => []

end AppInput

namespace AttachedClient

/-- A daemon's message is handled. -/
def receive (client : AttachedClient) (socketPath : String) (message : AppInput) :
    AttachedClient :=
  { client with
    gui := (client.gui.update message).1
    told := client.told ++ message.sharesTold.map (socketPath, ·) }

def step (client : AttachedClient) : SessionStep → Option AttachedClient
  | .message message =>
      if message.fromDaemon then none
      else
        let (gui, effects) := client.gui.update message
        some { client with
          gui
          requests := client.requests ++ requestsOf effects
          watches := client.watches ++ openedWatches effects }
  | .respond index result => do
      let request ← client.requests[index]?
      return { client.receive request.socketPath
          (.ipcResponse request.socketPath request.kind result) with
        requests := client.requests.eraseIdx index }
  | .notify index event => do
      let watch ← client.watches[index]?
      return client.receive watch.socketPath (.ipcEvent watch.generation event)
  | .stop index error => do
      let watch ← client.watches[index]?
      return { client.receive watch.socketPath (.ipcWatchStopped watch.generation error) with
        watches := client.watches.eraseIdx index }

end AttachedClient

/-- The client and its threads as a machine. -/
def sessionMachine : Machine AttachedClient SessionStep where
  step := AttachedClient.step

namespace EtleGui

/-! ## What a message does to the session -/

/-- What a message does that comes from no daemon, and the threads that it starts. -/
inductive SessionMove (gui next : EtleGui) : List Outstanding → List OpenWatch → Prop
  | attach {socketPath : String} (other : socketPath ≠ gui.activeSocketPath)
      (session : next.session = {
        activeSocketPath := socketPath
        watching := false
        watchGeneration := min (gui.watchGeneration + 1) (2 ^ 64 - 1)
        refreshInflight := false })
      (shares : next.shares = []) : SessionMove gui next [] []
  | refresh (session : next.session = { gui.session with refreshInflight := true })
      (shares : next.shares = gui.shares) :
      SessionMove gui next [⟨gui.activeSocketPath, .listShares, .listShares⟩] []
  | watch (idle : gui.watching = false)
      (session : next.session = { gui.session with
        watching := true
        watchGeneration := min (gui.watchGeneration + 1) (2 ^ 64 - 1) })
      (shares : next.shares = gui.shares) :
      SessionMove gui next [] [⟨gui.activeSocketPath, min (gui.watchGeneration + 1) (2 ^ 64 - 1)⟩]
  | send {kind : IpcRequestKind} {command : IpcCommand}
      (deletes : ∀ shareId, command = .deleteShare shareId →
        ∃ share ∈ gui.shares, share.shareId = shareId)
      (session : next.session = gui.session) (shares : next.shares = gui.shares) :
      SessionMove gui next [⟨next.activeSocketPath, kind, command⟩] []
  | keep (session : next.session = gui.session) (shares : next.shares = gui.shares) :
      SessionMove gui next [] []

variable (gui : EtleGui)

theorem sessionMove_spawnRefresh :
    SessionMove gui gui.spawnRefresh.1 (requestsOf gui.spawnRefresh.2)
      (openedWatches gui.spawnRefresh.2) := by
  unfold spawnRefresh
  split
  · exact .keep rfl rfl
  · exact .refresh rfl rfl

theorem sessionMove_startSeedSelected :
    SessionMove gui gui.startSeedSelected.1 (requestsOf gui.startSeedSelected.2)
      (openedWatches gui.startSeedSelected.2) := by
  have shares := congrArg Prod.fst gui.libraryPage_startSeedSelected
  unfold startSeedSelected at shares ⊢
  dsimp only at shares ⊢
  split
  · exact .keep rfl rfl
  · rename_i listed
    split
    · exact .keep rfl rfl
    · rename_i path found
      rw [if_neg listed, found] at shares
      have same := (gui.removeSeedFile (gui.selectedSeedFile.getD 0)).controls_startSeedPath path
      exact .send nofun (congrArg Controls.session same) shares

theorem sessionMove_startDownloadFromForm (shareIdText peersText outputText authPskText
    discoveryMulticastText : String) :
    SessionMove gui
      (gui.startDownloadFromForm shareIdText peersText outputText authPskText
        discoveryMulticastText).1
      (requestsOf (gui.startDownloadFromForm shareIdText peersText outputText authPskText
        discoveryMulticastText).2)
      (openedWatches (gui.startDownloadFromForm shareIdText peersText outputText authPskText
        discoveryMulticastText).2) := by
  have shares := congrArg Prod.fst (gui.libraryPage_startDownloadFromForm shareIdText peersText
    outputText authPskText discoveryMulticastText)
  have session := congrArg Controls.session (gui.controls_startDownloadFromForm shareIdText
    peersText outputText authPskText discoveryMulticastText)
  unfold startDownloadFromForm at shares session ⊢
  split
  · exact .keep rfl rfl
  · rename_i command shareId built
    rw [built] at shares session
    refine .send (fun deleted same => ?_) session shares
    obtain ⟨request, rfl | rfl⟩ := request_of_buildDownloadCommandFrom built <;> cases same

theorem sessionMove_confirmDeleteSelectedShare :
    SessionMove gui gui.confirmDeleteSelectedShare.1 (requestsOf gui.confirmDeleteSelectedShare.2)
      (openedWatches gui.confirmDeleteSelectedShare.2) := by
  unfold confirmDeleteSelectedShare
  split
  · exact .keep rfl rfl
  · rename_i share selected
    split
    · dsimp only [requestDeleteSelectedShare]
      rw [selected]
      exact .keep rfl rfl
    · refine .send (fun shareId same => ?_) rfl rfl
      obtain ⟨index, -, found⟩ := Option.bind_eq_some_iff.mp selected
      obtain rfl : share.shareId = shareId := by simpa using same
      exact ⟨share, List.mem_of_getElem? found, rfl⟩

/-- Every message that comes from no daemon moves the session in one of the listed ways. -/
theorem sessionMove_of_update {message : AppInput} (own : message.fromDaemon = false) :
    SessionMove gui (gui.update message).1 (requestsOf (gui.update message).2)
      (openedWatches (gui.update message).2) := by
  cases message with
  | ipcResponse | ipcEvent | ipcWatchStopped => cases own
  | applySocketText value | applySettings socketPath authPsk =>
      dsimp only [update, applySocket]
      split
      · exact .keep rfl rfl
      · split
        · rename_i other
          exact .attach other rfl rfl
        · exact .keep rfl rfl
  | connect =>
      dsimp only [update, connect]
      split
      · exact .keep rfl rfl
      · exact .send nofun rfl rfl
  | refresh => exact gui.sessionMove_spawnRefresh
  | autoRefreshTick elapsedSecs =>
      dsimp only [update]
      split
      · exact gui.sessionMove_spawnRefresh
      · exact .keep rfl rfl
  | startWatch =>
      dsimp only [update, startWatch]
      split
      · exact .keep rfl rfl
      · split
        · exact .keep rfl rfl
        · rename_i idle
          exact .watch (by simpa using idle) rfl rfl
  | startSeedSelected => exact gui.sessionMove_startSeedSelected
  | startDownloadFromForm shareId peers output authPsk discoveryMulticast =>
      exact gui.sessionMove_startDownloadFromForm shareId peers output authPsk discoveryMulticast
  | confirmDeleteSelectedShare => exact gui.sessionMove_confirmDeleteSelectedShare
  | deleteSelectedShare =>
      dsimp only [update, requestDeleteSelectedShare]
      split <;> exact .keep rfl rfl
  | cancelDeleteShare =>
      dsimp only [update, cancelDeleteShare]
      split <;> exact .keep rfl rfl
  | selectShare index | selectSeedFile index =>
      dsimp only [update]
      split <;> exact .keep rfl rfl
  | addSeedPathText value =>
      dsimp only [update, addSeedPathText, addSeedFile]
      split
      · exact .keep rfl rfl
      · split <;> exact .keep rfl rfl
  | addSeedFile path =>
      dsimp only [update, addSeedFile]
      split <;> exact .keep rfl rfl
  | removeSelectedSeedFile =>
      dsimp only [update, removeSelectedSeedFile]
      split
      · exact .keep rfl rfl
      · split <;> exact .keep rfl rfl
  | browseSeedFiles paths =>
      have noRequests : requestsOf (gui.update (.browseSeedFiles paths)).2 = [] := by
        simp [update, requestsOf]
      have noWatches : openedWatches (gui.update (.browseSeedFiles paths)).2 = [] := by
        simp [update, openedWatches]
      rw [noRequests, noWatches]
      exact .keep rfl rfl
  | _ => exact .keep rfl rfl

/-- A share that is shown has been shown before, or the message tells of it. -/
theorem shown_or_told {message : AppInput} {share : IpcShareSummary}
    (shown : share ∈ (gui.update message).1.shares) :
    share ∈ gui.shares ∨ share ∈ message.sharesTold := by
  have added (told : IpcShareSummary) (shown : share ∈ (gui.upsertShare told).shares) :
      share ∈ gui.shares ∨ share ∈ [told] := by
    unfold upsertShare at shown
    dsimp only at shown
    split at shown
    · rcases mem_of_mem_modifyFirst shown with old | ⟨-, -, rfl⟩
      · exact .inl old
      · exact .inr (.head _)
    · exact List.mem_append.mp shown
  have move := gui.libraryMove_of_update message
  generalize (gui.update message).1 = next at shown move
  have page (shares : List IpcShareSummary) (row : Option Nat) (pending : Option ShareId)
      (same : next.libraryPage = (shares, row, pending)) : share ∈ shares := by
    have listed : next.shares = shares := congrArg Prod.fst same
    exact listed ▸ shown
  cases move with
  | select inside same | request selected same | requestInstead selected other same
  | confirm same | cancel same | keep still same => exact .inl (page _ _ _ same)
  | remove deleted same => exact .inl (List.mem_of_mem_filter (page _ _ _ same))
  | list same => exact .inr (page _ _ _ same)
  | add same | updateShare same => exact added _ (page _ _ _ same)
  | changeSocket changed same => exact absurd (page _ _ _ same) List.not_mem_nil

end EtleGui

/-! ## What holds in every state -/

/-- No two watches have one generation, and only the current one is listened to, which belongs to
the socket in use; a refresh that the client waits for is on its way; every share that is shown was
told by the daemon in use, and is deleted only where it was told. -/
structure AttachedClient.Attached (client : AttachedClient) : Prop where
  older : ∀ watch ∈ client.watches, watch.generation ≤ client.gui.watchGeneration
  apart : (client.watches.map (·.generation)).Nodup
  current : ∀ watch ∈ client.watches, watch.generation = client.gui.watchGeneration →
    client.gui.watching = true ∧ watch.socketPath = client.gui.activeSocketPath
  watched : client.gui.watching = true →
    ∃ watch ∈ client.watches, watch.generation = client.gui.watchGeneration
  awaited : client.gui.refreshInflight = true → ∃ request ∈ client.requests,
    request.kind = .listShares ∧ request.socketPath = client.gui.activeSocketPath
  shown : ∀ share ∈ client.gui.shares, (client.gui.activeSocketPath, share) ∈ client.told
  deletes : ∀ request ∈ client.requests, ∀ shareId, request.command = .deleteShare shareId →
    ∃ share, (request.socketPath, share) ∈ client.told ∧ share.shareId = shareId

namespace AttachedClient

open EtleGui

theorem attached_new (init : GuiInit) : (new init).Attached := by
  constructor <;> simp [new, EtleGui.new]

namespace Attached

variable {client : AttachedClient}

/-- A step that only starts or ends a refresh leaves the watches as they were. -/
theorem of_session {next : AttachedClient} (refreshing : Bool) (holds : client.Attached)
    (session : next.gui.session = { client.gui.session with refreshInflight := refreshing })
    (watches : next.watches = client.watches)
    (awaited : refreshing = true → ∃ request ∈ next.requests,
      request.kind = .listShares ∧ request.socketPath = client.gui.activeSocketPath)
    (shown : ∀ share ∈ next.gui.shares, (client.gui.activeSocketPath, share) ∈ next.told)
    (deletes : ∀ request ∈ next.requests, ∀ shareId, request.command = .deleteShare shareId →
      ∃ share, (request.socketPath, share) ∈ next.told ∧ share.shareId = shareId) :
    next.Attached := by
  simp only [EtleGui.session, ClientSession.mk.injEq] at session
  obtain ⟨socket, watching, generation, refresh⟩ := session
  constructor
  · rw [watches, generation]
    exact holds.older
  · rw [watches]
    exact holds.apart
  · rw [watches, generation, watching, socket]
    exact holds.current
  · rw [watches, generation, watching]
    exact holds.watched
  · rw [refresh, socket]
    exact awaited
  · rw [socket]
    exact shown
  · exact deletes

/-- The deletions of a client that sends one more command. -/
theorem deletes_append (holds : client.Attached) {requests : List Outstanding}
    (more : ∀ request ∈ requests, ∀ shareId, request.command = .deleteShare shareId →
      ∃ share, (request.socketPath, share) ∈ client.told ∧ share.shareId = shareId) :
    ∀ request ∈ client.requests ++ requests, ∀ shareId,
      request.command = .deleteShare shareId →
        ∃ share, (request.socketPath, share) ∈ client.told ∧ share.shareId = shareId := by
  intro request member
  rcases List.mem_append.mp member with old | new
  · exact holds.deletes request old
  · exact more request new

theorem message {next : EtleGui} {requests : List Outstanding} {watches : List OpenWatch}
    (holds : client.Attached) (move : SessionMove client.gui next requests watches)
    (running : next.watchGeneration < 2 ^ 64 - 1) :
    Attached { client with
      gui := next
      requests := client.requests ++ requests
      watches := client.watches ++ watches } := by
  cases move with
  | attach other session shares =>
      simp only [EtleGui.session, ClientSession.mk.injEq] at session
      obtain ⟨socket, unwatched, generation, idle⟩ := session
      have bumped : next.watchGeneration = client.gui.watchGeneration + 1 := by omega
      rw [List.append_nil, List.append_nil]
      constructor <;> dsimp only
      · intro watch member
        exact bumped ▸ Nat.le_succ_of_le (holds.older watch member)
      · exact holds.apart
      · intro watch member same
        have older := holds.older watch member
        omega
      · simp [unwatched]
      · simp [idle]
      · simp [shares]
      · exact holds.deletes
  | watch idle session shares =>
      simp only [EtleGui.session, ClientSession.mk.injEq] at session
      obtain ⟨socket, watched, generation, refresh⟩ := session
      have bumped : next.watchGeneration = client.gui.watchGeneration + 1 := by omega
      rw [← generation]
      constructor <;> dsimp only
      · rw [List.forall_mem_append, List.forall_mem_singleton]
        refine ⟨fun watch member => ?_, le_rfl⟩
        exact bumped ▸ Nat.le_succ_of_le (holds.older watch member)
      · rw [List.map_append, List.nodup_append]
        refine ⟨holds.apart, List.nodup_singleton _, ?_⟩
        intro old old_member new new_member
        obtain ⟨watch, member, rfl⟩ := List.mem_map.mp old_member
        rw [List.map_singleton, List.mem_singleton] at new_member
        have older := holds.older watch member
        exact fun same => absurd (same.trans new_member) (by dsimp only; omega)
      · rw [List.forall_mem_append, List.forall_mem_singleton]
        refine ⟨fun watch member same => ?_, fun _ => ⟨watched, socket.symm⟩⟩
        have older := holds.older watch member
        exact absurd same (by omega)
      · exact fun _ => ⟨_, List.mem_append_right _ (.head _), rfl⟩
      · rw [refresh, socket, List.append_nil]
        exact holds.awaited
      · rw [shares, socket]
        exact holds.shown
      · rw [List.append_nil]
        exact holds.deletes
  | refresh session shares =>
      refine of_session true holds session (List.append_nil _) (fun _ => ?_) ?_ ?_
      · exact ⟨_, List.mem_append_right _ (.head _), rfl, rfl⟩
      · exact shares ▸ holds.shown
      · exact holds.deletes_append (by simp)
  | send deletes session shares =>
      refine of_session client.gui.refreshInflight holds session (List.append_nil _)
        (fun waiting => ?_) ?_ ?_
      · obtain ⟨request, member, listing⟩ := holds.awaited waiting
        exact ⟨request, List.mem_append_left _ member, listing⟩
      · exact shares ▸ holds.shown
      · refine holds.deletes_append ?_
        rw [List.forall_mem_singleton]
        intro shareId deleted
        obtain ⟨share, listed, same⟩ := deletes shareId deleted
        have socket : next.activeSocketPath = client.gui.activeSocketPath :=
          congrArg ClientSession.activeSocketPath session
        exact ⟨share, socket ▸ holds.shown share listed, same⟩
  | keep session shares =>
      refine of_session client.gui.refreshInflight holds session (List.append_nil _)
        (fun waiting => ?_) ?_ ?_
      · obtain ⟨request, member, listing⟩ := holds.awaited waiting
        exact ⟨request, List.mem_append_left _ member, listing⟩
      · exact shares ▸ holds.shown
      · exact holds.deletes_append (by simp)

/-- A daemon's message that leaves the session alone, or ends a refresh.  What it tells of is shown
only if it comes from the socket in use. -/
theorem receive {socketPath : String} {message : AppInput} (refreshing : Bool)
    (holds : client.Attached)
    (session : (client.gui.update message).1.session =
      { client.gui.session with refreshInflight := refreshing })
    (waits : refreshing = true → client.gui.refreshInflight = true)
    (source : socketPath = client.gui.activeSocketPath ∨
      (client.gui.update message).1 = client.gui) :
    (client.receive socketPath message).Attached := by
  have awaited := fun waiting => holds.awaited (waits waiting)
  refine of_session refreshing holds session rfl awaited ?_ ?_
  · intro share shown
    apply List.mem_append.mpr
    rcases source with active | ignored
    · rcases client.gui.shown_or_told shown with old | told
      · exact .inl (holds.shown share old)
      · exact .inr (List.mem_map.mpr ⟨share, told, by rw [active]⟩)
    · have old : share ∈ client.gui.shares := ignored ▸ shown
      exact .inl (holds.shown share old)
  · intro request member shareId deleted
    obtain ⟨share, told, same⟩ := holds.deletes request member shareId deleted
    exact ⟨share, List.mem_append_left _ told, same⟩

theorem respond {index : Nat} {request : Outstanding} (holds : client.Attached)
    (found : client.requests[index]? = some request) (result : Except String IpcResponse) :
    Attached { client.receive request.socketPath
        (.ipcResponse request.socketPath request.kind result) with
      requests := client.requests.eraseIdx index } := by
  have session := client.gui.session_update_ipcResponse request.socketPath request.kind result
  have received : (client.receive request.socketPath
      (.ipcResponse request.socketPath request.kind result)).Attached := by
    have source : request.socketPath = client.gui.activeSocketPath ∨
        (client.gui.update (.ipcResponse request.socketPath request.kind result)).1 =
          client.gui := by
      by_cases active : request.socketPath = client.gui.activeSocketPath
      · exact .inl active
      · exact .inr (by rw [update, if_neg active])
    split at session
    · exact receive false holds session (by simp) source
    · exact receive client.gui.refreshInflight holds session id source
  refine ⟨received.older, received.apart, received.current, received.watched, fun waiting => ?_,
    received.shown, fun other member => ?_⟩
  · obtain ⟨awaited, member, listing, active⟩ := received.awaited waiting
    refine ⟨awaited, ?_, listing, active⟩
    obtain ⟨position, there⟩ := List.mem_iff_getElem?.mp member
    refine List.mem_eraseIdx_iff_getElem?.mpr ⟨position, fun same => ?_, there⟩
    subst same
    obtain rfl : request = awaited := Option.some.inj (found.symm.trans there)
    have socket : (client.receive request.socketPath (.ipcResponse request.socketPath request.kind
        result)).gui.activeSocketPath = client.gui.activeSocketPath := by
      have same := congrArg ClientSession.activeSocketPath session
      split at same <;> exact same
    rw [socket] at active
    rw [if_pos ⟨active, listing⟩] at session
    have ended : (client.gui.update (.ipcResponse request.socketPath request.kind
        result)).1.refreshInflight = false := congrArg ClientSession.refreshInflight session
    exact Bool.noConfusion (ended.symm.trans waiting)
  · exact received.deletes other (List.mem_of_mem_eraseIdx member)

theorem notify {index : Nat} {watch : OpenWatch} (holds : client.Attached)
    (found : client.watches[index]? = some watch) (event : IpcEvent) :
    (client.receive watch.socketPath (.ipcEvent watch.generation event)).Attached := by
  have source : watch.socketPath = client.gui.activeSocketPath ∨
      (client.gui.update (.ipcEvent watch.generation event)).1 = client.gui := by
    by_cases listened : watch.generation = client.gui.watchGeneration
    · exact .inl (holds.current watch (List.mem_of_getElem? found) listened).2
    · exact .inr (by rw [update, if_neg listened])
  refine receive client.gui.refreshInflight holds ?_ id source
  dsimp only [update]
  split
  · exact congrArg Controls.session (client.gui.controls_applyIpcEvent event)
  · rfl

theorem stop {index : Nat} {watch : OpenWatch} (holds : client.Attached)
    (found : client.watches[index]? = some watch) (error : String) :
    Attached { client.receive watch.socketPath (.ipcWatchStopped watch.generation error) with
      watches := client.watches.eraseIdx index } := by
  have inside : ∀ other ∈ client.watches.eraseIdx index, other ∈ client.watches :=
    fun other member => List.mem_of_mem_eraseIdx member
  have apart : ((client.watches.eraseIdx index).map (·.generation)).Nodup :=
    holds.apart.sublist ((List.eraseIdx_sublist ..).map _)
  have unlike : ∀ other ∈ client.watches.eraseIdx index, other.generation ≠ watch.generation := by
    intro other member same
    obtain ⟨position, moved, there⟩ := List.mem_eraseIdx_iff_getElem?.mp member
    have inside := (List.getElem?_eq_some_iff.mp there).1
    apply moved
    apply (List.getElem?_inj (by simpa using inside) holds.apart).mp
    rw [List.getElem?_map, List.getElem?_map, there, found, Option.map_some, Option.map_some, same]
  have told : client.told ++ (AppInput.ipcWatchStopped watch.generation error).sharesTold.map
      (watch.socketPath, ·) = client.told := List.append_nil _
  unfold AttachedClient.receive
  dsimp only
  rw [told]
  dsimp only [update]
  split
  · rename_i listened
    constructor <;> dsimp only
    · exact fun other member => holds.older other (inside other member)
    · exact apart
    · exact fun other member same => absurd (same.trans listened.symm) (unlike other member)
    · exact nofun
    · exact holds.awaited
    · exact holds.shown
    · exact holds.deletes
  · rename_i stale
    constructor <;> dsimp only
    · exact fun other member => holds.older other (inside other member)
    · exact apart
    · exact fun other member => holds.current other (inside other member)
    · intro watching
      obtain ⟨current, member, same⟩ := holds.watched watching
      obtain ⟨position, there⟩ := List.mem_iff_getElem?.mp member
      have kept : position ≠ index → current ∈ client.watches.eraseIdx index :=
        fun moved => List.mem_eraseIdx_iff_getElem?.mpr ⟨position, moved, there⟩
      refine ⟨current, kept fun erased => ?_, same⟩
      subst erased
      obtain rfl := Option.some.inj (found.symm.trans there)
      exact stale same
    · exact holds.awaited
    · exact holds.shown
    · exact holds.deletes

end Attached

/-- What a step does. -/
inductive StepMove (client : AttachedClient) : AttachedClient → Prop
  | own {next : EtleGui} {requests : List Outstanding} {watches : List OpenWatch}
      (move : SessionMove client.gui next requests watches) :
      StepMove client { client with
        gui := next
        requests := client.requests ++ requests
        watches := client.watches ++ watches }
  | respond {index : Nat} {request : Outstanding} (found : client.requests[index]? = some request)
      (result : Except String IpcResponse) :
      StepMove client { client.receive request.socketPath
          (.ipcResponse request.socketPath request.kind result) with
        requests := client.requests.eraseIdx index }
  | notify {index : Nat} {watch : OpenWatch} (found : client.watches[index]? = some watch)
      (event : IpcEvent) :
      StepMove client (client.receive watch.socketPath (.ipcEvent watch.generation event))
  | stop {index : Nat} {watch : OpenWatch} (found : client.watches[index]? = some watch)
      (error : String) :
      StepMove client { client.receive watch.socketPath
          (.ipcWatchStopped watch.generation error) with
        watches := client.watches.eraseIdx index }

theorem stepMove_of_step {client next : AttachedClient} {event : SessionStep}
    (step : client.step event = some next) : StepMove client next := by
  cases event with
  | message message =>
      rw [AttachedClient.step] at step
      split at step
      · cases step
      · rename_i own
        obtain rfl := Option.some.inj step
        exact .own (client.gui.sessionMove_of_update (by simpa using own))
  | respond index result =>
      obtain ⟨request, found, there⟩ := Option.bind_eq_some_iff.mp step
      obtain rfl := Option.some.inj there
      exact .respond found result
  | notify index event =>
      obtain ⟨watch, found, there⟩ := Option.bind_eq_some_iff.mp step
      obtain rfl := Option.some.inj there
      exact .notify found event
  | stop index error =>
      obtain ⟨watch, found, there⟩ := Option.bind_eq_some_iff.mp step
      obtain rfl := Option.some.inj there
      exact .stop found error

/-- The generation grows by one at most, with every step. -/
theorem StepMove.watchGeneration {client next : AttachedClient} (move : StepMove client next) :
    client.gui.watchGeneration ≤ 2 ^ 64 - 1 →
      client.gui.watchGeneration ≤ next.gui.watchGeneration ∧
        next.gui.watchGeneration ≤ client.gui.watchGeneration + 1 := by
  have kept {gui : EtleGui} (refreshing : Bool)
      (session : gui.session = { client.gui.session with refreshInflight := refreshing }) :
      gui.watchGeneration = client.gui.watchGeneration :=
    congrArg ClientSession.watchGeneration session
  intro bounded
  cases move with
  | own move =>
      cases move with
      | attach other session shares | watch idle session shares =>
          have bumped := congrArg ClientSession.watchGeneration session
          dsimp only [EtleGui.session] at bumped ⊢
          omega
      | refresh session shares => simp [kept true session]
      | send deletes session shares | keep session shares =>
          simp [kept client.gui.refreshInflight session]
  | @respond index request found result =>
      have session := client.gui.session_update_ipcResponse request.socketPath request.kind result
      dsimp only [receive]
      split at session
      · simp [kept false session]
      · simp [kept client.gui.refreshInflight session]
  | @notify index watch found event =>
      dsimp only [receive, update]
      split
      · have session := congrArg Controls.session (client.gui.controls_applyIpcEvent event)
        simp [kept client.gui.refreshInflight session]
      · simp
  | stop found error =>
      dsimp only [receive, update]
      split <;> simp

theorem Attached.of_move {client next : AttachedClient} (holds : client.Attached)
    (move : StepMove client next) (running : next.gui.watchGeneration < 2 ^ 64 - 1) :
    next.Attached := by
  cases move with
  | own move => exact holds.message move running
  | respond found result => exact holds.respond found result
  | notify found event => exact holds.notify found event
  | stop found error => exact holds.stop found error

/-- A client that is attached stays so for as many steps as it has generations left. -/
theorem Attached.of_run {client final : AttachedClient} {events : List SessionStep}
    (holds : client.Attached)
    (room : client.gui.watchGeneration + events.length < 2 ^ 64 - 1)
    (run : sessionMachine.run client events = some final) : final.Attached := by
  induction events generalizing client with
  | nil =>
      obtain rfl : client = final := by simpa using run
      exact holds
  | cons event events ih =>
      obtain ⟨next, step, rest⟩ := Machine.run_cons_eq_some.mp run
      rw [List.length_cons] at room
      have move := stepMove_of_step step
      have bumped := (move.watchGeneration (by omega)).2
      exact ih (holds.of_move move (by omega)) (by omega) rest

end AttachedClient

open AttachedClient

/-- However its messages, the responses to its commands, the events of its watches and their ends
interleave, the client keeps to the daemon whose socket is in use, until the generations of its
watches run out. -/
theorem client_attached {init : GuiInit} {events : List SessionStep} {client : AttachedClient}
    (run : sessionMachine.run (.new init) events = some client)
    (short : events.length < 2 ^ 64 - 1) : client.Attached := by
  apply (attached_new init).of_run _ run
  exact (Nat.zero_add _).trans_lt short

/-- The socket changes while a listing is on its way, which arrives late. -/
def lateListing : List SessionStep :=
  [.message .startWatch, .message .refresh, .message (.applySocketText "/run/other.sock"),
    .message .refresh, .respond 0 (.ok (.shares [listedShare "notes" 7])),
    .notify 0 (.shareUpdated (listedShare "notes" 7)),
    .respond 0 (.ok (.shares [listedShare "films" 9])), .stop 0 "closed"]

theorem client_attached_late :
    ∃ client, sessionMachine.run (.new startedInit) lateListing = some client ∧
      client.Attached ∧ client.told.map (·.1) =
        ["/run/etle.sock", "/run/etle.sock", "/run/other.sock"] ∧
      client.gui.shares = [listedShare "films" 9] := by
  have ends : (sessionMachine.run (.new startedInit) lateListing).isSome := rfl
  have run := (Option.some_get ends).symm
  exact ⟨_, run, client_attached run (by decide), rfl, rfl⟩

end Etle
