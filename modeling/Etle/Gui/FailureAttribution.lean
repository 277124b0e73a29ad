import Etle.Gui.LibraryPage
import Etle.Ipc.EventBus
import Mathlib.Data.List.Perm.Basic

/-!
# Which card a failure marks

Events about failures carry no job, and the client marks the unfinished card that was updated last.
The daemon's jobs, its event bus, the client's watches and the client take their steps in any order.
-/

namespace Etle

/-! ## The marked card -/

theorem mem_of_lastMax_eq_some {α : Type} {key : α → Nat} {list : List α} {best : α}
    (found : lastMax key list = some best) : best ∈ list := by
  induction list generalizing best with
  | nil => cases found
  | cons first rest ih =>
      rw [lastMax] at found
      split at found
      next later search =>
          split at found
          next => exact List.mem_cons_of_mem _ (ih (search.trans found))
          next => exact Option.some.inj found ▸ List.mem_cons_self
      next search => exact Option.some.inj found ▸ List.mem_cons_self

theorem lastMax_map {α β : Type} (key : β → Nat) (map : α → β) (list : List α) :
    lastMax key (list.map map) = (lastMax (fun element => key (map element)) list).map map := by
  induction list with
  | nil => rfl
  | cons first rest ih =>
      rw [List.map_cons, lastMax, lastMax, ih]
      cases lastMax (fun element => key (map element)) rest with
      | none => rfl
      | some best =>
          simp only [Option.map_some]
          split <;> rfl

/-- Changing one element of a list leaves the others. -/
theorem exists_perm_modify {α : Type} {list : List α} {index : Nat} {element : α}
    (there : list[index]? = some element) (change : α → α) :
    ∃ others, list.Perm (element :: others) ∧
      (list.modify index change).Perm (change element :: others) := by
  induction list generalizing index with
  | nil => cases there
  | cons first rest ih =>
      cases index with
      | zero =>
          obtain rfl : first = element := Option.some.inj there
          exact ⟨rest, .refl _, .refl _⟩
      | succ index =>
          obtain ⟨others, before, after⟩ := ih there
          exact ⟨first :: others, (before.cons first).trans (.swap _ _ _),
            (after.cons first).trans (.swap _ _ _)⟩

/-- Only one element can have been changed into a different one. -/
theorem eq_of_perm_cons {α : Type} [DecidableEq α] {before after others rest : List α}
    {first first' second second' : α} (first_before : before.Perm (first :: others))
    (first_after : after.Perm (first' :: others)) (second_before : before.Perm (second :: rest))
    (second_after : after.Perm (second' :: rest)) (changed : second ≠ second') :
    second = first := by
  by_contra apart
  have counted_before := (first_before.symm.trans second_before).count_eq second
  have counted_after := (first_after.symm.trans second_after).count_eq second
  rw [List.count_cons_of_ne (Ne.symm apart), List.count_cons_self] at counted_before
  rw [List.count_cons_of_ne changed.symm, List.count_cons] at counted_after
  omega

/-- One card becomes failed, and nothing else happens to the cards. -/
def BecomesFailed (before after : List GuiTransfer) (card : GuiTransfer) : Prop :=
  card.status ≠ .failed ∧ ∃ detail others, before.Perm (card :: others) ∧
    after.Perm ({ card with status := .failed, detail } :: others)

/-- The unfinished card that was updated last. -/
def EtleGui.latestUnfinished (gui : EtleGui) : Option GuiTransfer :=
  lastMax (·.updatedSeq) (gui.transfers.filter (!·.status.isFinished))

theorem failed_ne {card : GuiTransfer} (unfailed : card.status ≠ .failed) (detail : String) :
    card ≠ { card with status := .failed, detail } := by
  intro same
  exact unfailed (congrArg GuiTransfer.status same)

theorem not_becomesFailed_of_perm {before after : List GuiTransfer} (same : after.Perm before)
    (card : GuiTransfer) : ¬BecomesFailed before after card := by
  rintro ⟨unfailed, detail, others, card_before, card_after⟩
  have heads := (card_after.symm.trans (same.trans card_before)).count_eq card
  rw [List.count_cons_of_ne (failed_ne unfailed detail).symm, List.count_cons_self] at heads
  omega

namespace EtleGui

/-- The card that marking picks by its position is the latest unfinished one. -/
theorem latestUnfinished_eq (gui : EtleGui) :
    gui.latestUnfinished = (lastMax (fun entry => entry.1.updatedSeq)
      (gui.transfers.zipIdx.filter fun entry => !entry.1.status.isFinished)).map Prod.fst := by
  have cards : gui.transfers.filter (!·.status.isFinished) =
      (gui.transfers.zipIdx.filter fun entry => !entry.1.status.isFinished).map Prod.fst := by
    conv_lhs => rw [← List.zipIdx_map_fst 0 gui.transfers, List.filter_map]
    rfl
  rw [latestUnfinished, cards]
  exact lastMax_map GuiTransfer.updatedSeq Prod.fst _

/-- What marking does: nothing without an unfinished card, and otherwise it fails this card. -/
theorem markRecentRunningFailed_cases (gui : EtleGui) (reason : String) :
    (gui.latestUnfinished = none ∧
        (gui.markRecentRunningFailed reason).transfers.Perm gui.transfers) ∨
      ∃ card others, gui.latestUnfinished = some card ∧ card.status.isFinished = false ∧
        gui.transfers.Perm (card :: others) ∧
        (gui.markRecentRunningFailed reason).transfers.Perm
          ({ card with status := .failed, detail := compactLogLine reason } :: others) := by
  simp only [markRecentRunningFailed, sortTransfers]
  split
  · rename_i card position search
    have latest : gui.latestUnfinished = some card :=
      (latestUnfinished_eq gui).trans (congrArg (Option.map Prod.fst) search)
    obtain ⟨member, unfinished⟩ := List.mem_filter.mp (mem_of_lastMax_eq_some search)
    have there : gui.transfers[position]? = some card :=
      List.mk_mem_zipIdx_iff_getElem?.mp member
    obtain ⟨others, before, after⟩ := exists_perm_modify there fun transfer =>
      { transfer with status := .failed, detail := compactLogLine reason }
    exact .inr ⟨card, others, latest, by simpa using unfinished, before,
      (List.perm_insertionSort _ _).trans after⟩
  · rename_i search
    have latest : gui.latestUnfinished = none :=
      (latestUnfinished_eq gui).trans (congrArg (Option.map Prod.fst) search)
    exact .inl ⟨latest, List.perm_insertionSort _ _⟩

theorem becomesFailed_markRecentRunningFailed_iff (gui : EtleGui) (reason : String)
    (card : GuiTransfer) :
    BecomesFailed gui.transfers (gui.markRecentRunningFailed reason).transfers card ↔
      gui.latestUnfinished = some card := by
  obtain ⟨nothing, same⟩ | ⟨marked, rest, latest, unfinished, before, after⟩ :=
    gui.markRecentRunningFailed_cases reason
  · exact iff_of_false (not_becomesFailed_of_perm same card) (by simp [nothing])
  · have unfailed : marked.status ≠ .failed := by
      intro same
      simp [same, TransferStatus.isFinished] at unfinished
    constructor
    · rintro ⟨card_unfailed, detail, others, card_before, card_after⟩
      rw [latest, eq_of_perm_cons before after card_before card_after
        (failed_ne card_unfailed detail)]
    · intro same
      obtain rfl := Option.some.inj (latest.symm.trans same)
      exact ⟨unfailed, _, rest, before, after⟩

end EtleGui

/-! ## The daemon and its client -/

/-- The card shows the job: it has the share of the job, or the name of the file that is seeded as
long as the share is not known. -/
def DaemonJob.IsShownBy (card : GuiTransfer) : DaemonJob → Prop
  | .seed input shareId => card.kind = .seed ∧
      (card.shareId = some shareId ∨ card.shareId = none ∧ card.label = fileLabel input)
  | .download shareId _ => card.kind = .download ∧ card.shareId = some shareId

/-- A subscription of the client: the events it has not received yet are on the bus from its
position on or in its stream. -/
structure Watch where
  generation : Nat
  position : Nat
  stream : List Notice

/-- The client, the watches it has asked for, the running jobs, what was published, and the open
watches. -/
structure ClientSystem where
  gui : EtleGui
  requested : List Nat
  jobs : List DaemonJob
  bus : List Notice
  watches : List Watch

def ClientSystem.new (init : GuiInit) : ClientSystem where
  gui := .new init
  requested := []
  jobs := []
  bus := []
  watches := []

/-- The steps of the system. -/
inductive ClientStep where
  /-- What the user does, a message of the client to itself, or a response of the daemon. -/
  | message (message : AppInput)
  /-- The daemon starts a job for this client or another one. -/
  | start (job : DaemonJob)
  /-- A job or the daemon itself publishes anything but an error. -/
  | publish (event : IpcEvent)
  | fail (job : DaemonJob) (message : String)
  | finish (job : DaemonJob)
  | subscribe (generation : Nat)
  /-- The daemon sends the next event of a watch, and the client handles one. -/
  | send (watch : Nat)
  | deliver (watch : Nat)
  | disconnect (watch : Nat)

/-- The generations of the watches that effects ask for. -/
def watchesOf (effects : List GuiEffect) : List Nat :=
  effects.filterMap fun
    | .watch _ generation => some generation
    | _ => none

namespace ClientSystem

/-- The event that a step makes the client handle, and the generation of its watch. -/
def delivered (system : ClientSystem) : ClientStep → Option (Nat × Notice)
  | .deliver index => do
      let watch ← system.watches[index]?
      let notice ← watch.stream.head?
      return (watch.generation, notice)
  | _ => none

def step (system : ClientSystem) : ClientStep → Option ClientSystem
  -- Events only come through a watch.
  | .message (.ipcEvent _ _) => none
  | .message message =>
      let (gui, effects) := system.gui.update message
      some { system with gui, requested := system.requested ++ watchesOf effects }
  | .start job => some { system with jobs := job :: system.jobs }
  | .publish (.error _) => none
  | .publish event => some { system with bus := system.bus ++ [{ event, failed := none }] }
  | .fail job message =>
      if job ∈ system.jobs then
        some { system with
          jobs := system.jobs.erase job
          bus := system.bus ++ [{ event := .error message, failed := some job }] }
      else
        none
  | .finish job =>
      if job ∈ system.jobs then some { system with jobs := system.jobs.erase job } else none
  | .subscribe generation =>
      if generation ∈ system.requested then
        some { system with
          requested := system.requested.erase generation
          watches := system.watches ++
            [{ generation, position := system.bus.length, stream := [] }] }
      else
        none
  | .send index => do
      let watch ← system.watches[index]?
      let (notice, position) ← serveSubscription system.bus watch.position
      return { system with
        watches := system.watches.set index
          { watch with position, stream := watch.stream ++ [notice] } }
  | .deliver index => do
      let watch ← system.watches[index]?
      let notice ← watch.stream.head?
      return { system with
        gui := (system.gui.update (.ipcEvent watch.generation notice.event)).1
        watches := system.watches.set index { watch with stream := watch.stream.tail } }
  | .disconnect index => some { system with watches := system.watches.eraseIdx index }

end ClientSystem

/-- The client and its daemon as a machine. -/
def clientMachine : Machine ClientSystem ClientStep where
  step := ClientSystem.step

namespace ClientSystem

/-- An error event makes a card failed only if it was published for the failure of a job that the
card shows. -/
def FailsRightly (before : ClientSystem) (event : ClientStep) (next : ClientSystem) : Prop :=
  ∀ generation notice message, before.delivered event = some (generation, notice) →
    notice.event = .error message →
      ∀ card, BecomesFailed before.gui.transfers next.gui.transfers card →
        ∃ job, notice.failed = some job ∧ job.IsShownBy card

/-- If the step delivers an error of the current watch while a card is unfinished, it is the failure
of a job that the unfinished card shows that was updated last. -/
def BlamesLatest (system : ClientSystem) (event : ClientStep) : Prop :=
  ∀ notice message, system.delivered event = some (system.gui.watchGeneration, notice) →
    notice.event = .error message →
      ∀ card, system.gui.latestUnfinished = some card →
        ∃ job, notice.failed = some job ∧ job.IsShownBy card

theorem gui_of_delivered {before next : ClientSystem} {event : ClientStep} {generation : Nat}
    {notice : Notice} (step : before.step event = some next)
    (delivered : before.delivered event = some (generation, notice)) :
    next.gui = (before.gui.update (.ipcEvent generation notice.event)).1 := by
  cases event with
  | deliver index =>
      simp only [ClientSystem.delivered, ClientSystem.step, Option.bind_eq_bind,
        Option.bind_eq_some_iff, Option.pure_def, Option.some.injEq,
        Prod.mk.injEq] at step delivered
      obtain ⟨watch, opened, first, head, rfl, rfl⟩ := delivered
      obtain ⟨same, reopened, again, rehead, rfl⟩ := step
      obtain rfl := Option.some.inj (opened.symm.trans reopened)
      obtain rfl := Option.some.inj (head.symm.trans rehead)
      rfl
  | _ => cases delivered

/-- One step fails cards rightly exactly when it blames the card that was updated last rightly. -/
theorem failsRightly_iff_blamesLatest {before next : ClientSystem} {event : ClientStep}
    (step : before.step event = some next) :
    before.FailsRightly event next ↔ before.BlamesLatest event := by
  have handled {generation : Nat} {notice : Notice} {message : String}
      (delivered : before.delivered event = some (generation, notice))
      (error : notice.event = .error message) (card : GuiTransfer) :
      BecomesFailed before.gui.transfers next.gui.transfers card ↔
        generation = before.gui.watchGeneration ∧ before.gui.latestUnfinished = some card := by
    rw [gui_of_delivered step delivered, error, EtleGui.update]
    split
    next current =>
        simp only [EtleGui.applyIpcEvent, current, true_and]
        exact before.gui.becomesFailed_markRecentRunningFailed_iff message card
    next stale =>
        exact iff_of_false (not_becomesFailed_of_perm (.refl _) card) fun both => stale both.1
  constructor
  · intro rightly notice message delivered error card latest
    exact rightly _ notice message delivered error card ((handled delivered error card).mpr
      ⟨rfl, latest⟩)
  · intro blames generation notice message delivered error card becomes
    obtain ⟨rfl, latest⟩ := (handled delivered error card).mp becomes
    exact blames notice message delivered error card latest

end ClientSystem

/-! ## Reported failures -/

namespace ClientSystem

/-- What is on the bus and in the streams of the watches. -/
def notices (system : ClientSystem) : List Notice :=
  system.bus ++ system.watches.flatMap Watch.stream

theorem mem_notices {system : ClientSystem} {notice : Notice} :
    notice ∈ system.notices ↔
      notice ∈ system.bus ∨ ∃ watch ∈ system.watches, notice ∈ watch.stream := by
  simp [notices]

/-- Publishing only brings in what is published. -/
theorem mem_notices_of_publish {system : ClientSystem} {jobs : List DaemonJob}
    {published notice : Notice}
    (listed : notice ∈ ({ system with jobs, bus := system.bus ++ [published] }).notices) :
    notice ∈ system.notices ∨ notice = published := by
  rw [mem_notices] at listed ⊢
  rcases listed with listed | streamed
  · rcases List.mem_append.mp listed with old | new
    · exact .inl (.inl old)
    · exact .inr (List.mem_singleton.mp new)
  · exact .inl (.inr streamed)

/-- Replacing one watch only brings in what its new stream has. -/
theorem mem_stream_of_set {watches : List Watch} {index : Nat} {changed : Watch} {notice : Notice}
    (listed : ∃ watch ∈ watches.set index changed, notice ∈ watch.stream) :
    (∃ watch ∈ watches, notice ∈ watch.stream) ∨ notice ∈ changed.stream := by
  obtain ⟨watch, member, streamed⟩ := listed
  rcases List.mem_or_eq_of_mem_set member with old | rfl
  · exact .inl ⟨watch, old, streamed⟩
  · exact .inr streamed

/-- A notice of a failed job was there before the step, or the step is this failure. -/
theorem notices_of_step {before next : ClientSystem} {event : ClientStep}
    (step : before.step event = some next) {notice : Notice} {job : DaemonJob}
    (listed : notice ∈ next.notices) (failed : notice.failed = some job) :
    notice ∈ before.notices ∨ ∃ message,
      event = .fail job message ∧ job ∈ before.jobs ∧ notice.event = .error message := by
  cases event with
  | message message =>
      cases message with
      | ipcEvent generation event => cases step
      | _ =>
          obtain rfl := Option.some.inj step
          rw [mem_notices] at listed ⊢
          exact .inl listed
  | start started =>
      obtain rfl := Option.some.inj step
      exact .inl listed
  | publish event =>
      cases event with
      | error message => cases step
      | _ =>
          obtain rfl := Option.some.inj step
          rcases mem_notices_of_publish listed with old | rfl
          · exact .inl old
          · cases failed
  | fail other message =>
      simp only [ClientSystem.step] at step
      split at step
      next running =>
          obtain rfl := Option.some.inj step
          rcases mem_notices_of_publish listed with old | rfl
          · exact .inl old
          · obtain rfl : other = job := Option.some.inj failed
            exact .inr ⟨message, rfl, running, rfl⟩
      next => cases step
  | finish finished =>
      simp only [ClientSystem.step] at step
      split at step
      next =>
          obtain rfl := Option.some.inj step
          exact .inl listed
      next => cases step
  | subscribe generation =>
      simp only [ClientSystem.step] at step
      split at step
      next =>
          obtain rfl := Option.some.inj step
          rw [mem_notices] at listed ⊢
          rcases listed with listed | ⟨watch, member, streamed⟩
          · exact .inl (.inl listed)
          · rcases List.mem_append.mp member with old | new
            · exact .inl (.inr ⟨watch, old, streamed⟩)
            · obtain rfl := List.mem_singleton.mp new
              exact absurd streamed List.not_mem_nil
      next => cases step
  | send index =>
      simp only [ClientSystem.step, Option.bind_eq_bind, Option.bind_eq_some_iff, Option.pure_def,
        Option.some.injEq] at step
      obtain ⟨watch, opened, ⟨sent, position⟩, served, rfl⟩ := step
      rw [mem_notices] at listed ⊢
      rcases listed with listed | listed
      · exact .inl (.inl listed)
      · rcases mem_stream_of_set listed with old | new
        · exact .inl (.inr old)
        · rcases List.mem_append.mp new with old | new
          · exact .inl (.inr ⟨watch, List.mem_of_getElem? opened, old⟩)
          · obtain rfl := List.mem_singleton.mp new
            exact .inl (.inl (mem_bus_of_serveSubscription served failed))
  | deliver index =>
      simp only [ClientSystem.step, Option.bind_eq_bind, Option.bind_eq_some_iff, Option.pure_def,
        Option.some.injEq] at step
      obtain ⟨watch, opened, first, head, rfl⟩ := step
      rw [mem_notices] at listed ⊢
      rcases listed with listed | listed
      · exact .inl (.inl listed)
      · rcases mem_stream_of_set listed with old | new
        · exact .inl (.inr old)
        · exact .inl (.inr ⟨watch, List.mem_of_getElem? opened, List.mem_of_mem_tail new⟩)
  | disconnect index =>
      obtain rfl := Option.some.inj step
      rw [mem_notices] at listed ⊢
      rcases listed with listed | ⟨watch, member, streamed⟩
      · exact .inl (.inl listed)
      · exact .inl (.inr ⟨watch, List.mem_of_mem_eraseIdx member, streamed⟩)

theorem mem_notices_of_delivered {system : ClientSystem} {event : ClientStep} {generation : Nat}
    {notice : Notice} (delivered : system.delivered event = some (generation, notice)) :
    notice ∈ system.notices := by
  cases event with
  | deliver index =>
      simp only [ClientSystem.delivered, Option.bind_eq_bind, Option.bind_eq_some_iff,
        Option.pure_def, Option.some.injEq, Prod.mk.injEq] at delivered
      obtain ⟨watch, opened, first, head, -, rfl⟩ := delivered
      exact mem_notices.mpr (.inr ⟨watch, List.mem_of_getElem? opened, List.mem_of_head? head⟩)
  | _ => cases delivered

/-- Some job that was running when the daemon published the notice has failed. -/
def ReportedIn (steps : List (ClientSystem × ClientStep × ClientSystem)) (notice : Notice)
    (job : DaemonJob) : Prop :=
  ∃ taken ∈ steps, ∃ message,
    taken.2.1 = .fail job message ∧ job ∈ taken.1.jobs ∧ notice.event = .error message

/-- The failures of all listed notices have happened. -/
def FailuresHappened (system : ClientSystem)
    (steps : List (ClientSystem × ClientStep × ClientSystem)) : Prop :=
  ∀ notice ∈ system.notices, ∀ job, notice.failed = some job → ReportedIn steps notice job

/-- A notice of a failed job is only delivered after this job has failed. -/
theorem reported_of_delivered {init : GuiInit} {events : List ClientStep} {system : ClientSystem}
    (run : clientMachine.run (.new init) events = some system) {event : ClientStep}
    {generation : Nat} {notice : Notice} {job : DaemonJob}
    (delivered : system.delivered event = some (generation, notice))
    (failed : notice.failed = some job) :
    ReportedIn (clientMachine.trace (.new init) events) notice job := by
  have preserved (before : ClientSystem) (event : ClientStep) (next : ClientSystem)
      (steps : List (ClientSystem × ClientStep × ClientSystem))
      (known : before.FailuresHappened steps) (step : clientMachine.step before event = some next) :
      next.FailuresHappened (steps ++ [(before, event, next)]) := by
    intro notice listed job failed
    rcases notices_of_step step listed failed with old | ⟨message, rfl, running, error⟩
    · obtain ⟨taken, member, rest⟩ := known notice old job failed
      exact ⟨taken, List.mem_append_left _ member, rest⟩
    · exact ⟨_, List.mem_append_right _ (List.mem_singleton_self _), message, rfl, running, error⟩
  have start : (ClientSystem.new init).FailuresHappened [] := by
    simp [FailuresHappened, notices, ClientSystem.new]
  exact Machine.invariant_of_trace preserved start run notice
    (mem_notices_of_delivered delivered) job failed

/-- A watch that is too far behind gets a notice of no job, which marks a card nevertheless. -/
theorem lagged_watch_fails_card {system : ClientSystem} {index : Nat} {watch : Watch}
    (opened : system.watches[index]? = some watch) (read : watch.stream = [])
    (behind : watch.position + ipcEventChannelCapacity < system.bus.length)
    (current : watch.generation = system.gui.watchGeneration) {card : GuiTransfer}
    (latest : system.gui.latestUnfinished = some card) :
    ∃ sent next, system.step (.send index) = some sent ∧ sent.step (.deliver index) = some next ∧
      ¬sent.FailsRightly (.deliver index) next := by
  let oldest := system.bus.length - ipcEventChannelCapacity
  let skipped := oldest - watch.position
  have lagged : recv ipcEventChannelCapacity system.bus watch.position =
      some (.lagged skipped, oldest) := recv_eq_lagged.mpr (by omega)
  let changed : Watch :=
    { watch with position := oldest, stream := [(Received.lagged skipped).notice] }
  let sent : ClientSystem := { system with watches := system.watches.set index changed }
  have sends : system.step (.send index) = some sent := by
    simp [ClientSystem.step, opened, serveSubscription, lagged, read, changed, sent]
  have there : sent.watches[index]? = some changed := by
    obtain ⟨inside, -⟩ := List.getElem?_eq_some_iff.mp opened
    exact List.getElem?_set_self inside
  have shown : sent.delivered (.deliver index) =
      some (sent.gui.watchGeneration, (Received.lagged skipped).notice) := by
    simp only [delivered, there]
    exact congrArg (fun generation => some (generation, (Received.lagged skipped).notice)) current
  obtain ⟨next, delivers⟩ : ∃ next, sent.step (.deliver index) = some next := by
    simp [ClientSystem.step, there, changed]
  refine ⟨sent, next, sends, delivers, ?_⟩
  rw [failsRightly_iff_blamesLatest delivers]
  intro blames
  obtain ⟨job, failed, -⟩ := blames _ _ shown rfl card latest
  cases failed

end ClientSystem

end Etle
