import Libatp.Base.Agenda
import Libatp.Tcp.Table

/-!
# The loops' queues in the server

The server has the queue of every loop, and what its batches have still to run. Each of them
is the queue that the loop itself has: `sendToQueue` posts, `doPendingTasks` takes and runs,
and nothing else of the server's touches it.
-/

namespace Libatp.Tcp
open Base

namespace Server

variable {Uuid : Type} {s t : Server Uuid} {e : Event Uuid} {l : Loop} {frames : List Frame}

/-- The queue of a loop, with the calls of its `stopHandle`. -/
def agenda (s : Server Uuid) (l : Loop) (stops : List Bool) : Agenda Task where
  todo := (s.stack l).flatMap Frame.todo
  waiting := s.queue l
  stops := stops

/-! ## What the parts of a step do to the queue of loop `m` -/

section
variable (m : Loop) (stops : List Bool)

theorem agenda_goto_self : (s.goto l frames).agenda l stops =
    { s.agenda l stops with todo := frames.flatMap Frame.todo } := by
  simp [agenda, goto]

variable {m} in
theorem agenda_goto_ne (apart : m ≠ l) : (s.goto l frames).agenda m stops = s.agenda m stops := by
  simp [agenda, goto, apart]

theorem agenda_goto (same : frames.flatMap Frame.todo = (s.stack l).flatMap Frame.todo) :
    (s.goto l frames).agenda m stops = s.agenda m stops := by
  by_cases here : m = l
  · subst here
    rw [agenda_goto_self, same]
    rfl
  · exact agenda_goto_ne stops here

/-- A batch of the loop goes on to its next task. -/
theorem agenda_run {task : Task} {rest : List Task}
    (top : (s.stack l).flatMap Frame.todo = task :: rest)
    (now : frames.flatMap Frame.todo = rest) :
    (s.goto l frames).agenda m stops = s.agenda m stops ∨
      m = l ∧ (s.agenda m stops).Step (.run task) ((s.goto l frames).agenda m stops) := by
  by_cases here : m = l
  · subst here
    rw [agenda_goto_self, now]
    exact .inr ⟨rfl, .run _ task rest top⟩
  · exact .inl (agenda_goto_ne stops here)

theorem agenda_post (s : Server Uuid) (l : Loop) (task : Task) :
    (s.post l task).agenda m stops = s.agenda m stops ∨
      m = l ∧ (s.agenda m stops).Step (.post task) ((s.post l task).agenda m stops) := by
  by_cases here : m = l
  · subst here
    have moved : (s.post m task).agenda m stops =
        { s.agenda m stops with waiting := s.queue m ++ [task] } := by
      simp [agenda, post]
    rw [moved]
    exact .inr ⟨rfl, .post _ task⟩
  · exact .inl (by simp [agenda, post, here])

/-- The loop's thread takes its queue, between two events or in `stopHandle`. -/
theorem agenda_take
    (batch : frames.flatMap Frame.todo = s.queue l ++ (s.stack l).flatMap Frame.todo) :
    ({ s with queue := Function.update s.queue l [] }.goto l frames).agenda m stops =
        s.agenda m stops ∨
      m = l ∧ (s.agenda m stops).Step .take
        (({ s with queue := Function.update s.queue l [] }.goto l frames).agenda m stops) := by
  by_cases here : m = l
  · subst here
    have taken : { s with queue := Function.update s.queue m [] }.agenda m stops =
        { s.agenda m stops with waiting := [] } := by
      simp [agenda]
    rw [agenda_goto_self, batch, taken]
    exact .inr ⟨rfl, .take _⟩
  · exact .inl (by simp [agenda, goto, here])

/-- Closing posts the removal to the control loop, unless that is where it happens. -/
theorem agenda_close [DecidableEq Uuid] (s : Server Uuid) (l : Loop) (c : Nat) (k : Conn Uuid)
    (frames : List Frame) :
    (s.netFdCloseHandle l c k frames).agenda m stops = (s.goto l frames).agenda m stops ∨
      (s.agenda m stops).Step (.post (.remove c))
        ((s.netFdCloseHandle l c k frames).agenda m stops) := by
  have inside (u : Server Uuid) : (u.goto l (.closeFn c :: frames)).agenda m stops =
      (u.goto l frames).agenda m stops := by
    by_cases here : m = l
    · subst here
      rw [agenda_goto_self, agenda_goto_self]
      rfl
    · rw [agenda_goto_ne stops here, agenda_goto_ne stops here]
  rw [netFdCloseHandle, inside, handleCloseConnection]
  split
  · exact .inl rfl
  · rename_i apart
    by_cases here : m = l
    · subst here
      exact .inl (by simp [agenda, goto, post, apart, setConn])
    · rw [agenda_goto_ne stops here, agenda_goto_ne stops here]
      exact (agenda_post m stops (s.setConn c _) .control (.remove c)).imp_right And.right

end

/-! ## What a step does to it -/

/-- How the queue of loop `m` moves with the server: its thread runs the tasks, `close()` alone
posts a close, and nothing is thrown away. -/
structure Moved (s : Server Uuid) (e : Event Uuid) (t : Server Uuid) (m : Loop)
    (stops : List Bool) (a : Agenda.Event Task) : Prop where
  step : (s.agenda m stops).Step a (t.agenda m stops)
  ran : ∀ task, a = .run task → e = .run m task
  posted : ∀ c, a = .post (.close c) → e = .postClose c
  kept : a ≠ .clear

variable {m : Loop} {stops : List Bool}

theorem moved_post {task : Task} (step : (s.agenda m stops).Step (.post task) (t.agenda m stops))
    (close : ∀ c, task = .close c → e = .postClose c) : ∃ a, Moved s e t m stops a := by
  refine ⟨_, step, nofun, fun c eq => close c ?_, nofun⟩
  cases eq
  rfl

theorem moved_take (step : (s.agenda m stops).Step .take (t.agenda m stops)) :
    ∃ a, Moved s e t m stops a :=
  ⟨_, step, nofun, nofun, nofun⟩

/-- The next task of a batch, from a state `u` with the same queues. -/
theorem moved_run {u : Server Uuid} {task : Task} {ran todo : List Task} {rest : List Frame}
    (top : u.stack l = .batch ran (task :: todo) :: rest)
    (now : frames.flatMap Frame.todo = todo ++ rest.flatMap Frame.todo)
    (view : u.agenda m stops = s.agenda m stops)
    (eq : t.agenda m stops = (u.goto l frames).agenda m stops) (event : e = .run l task) :
    t.agenda m stops = s.agenda m stops ∨ ∃ a, Moved s e t m stops a := by
  have next : (u.stack l).flatMap Frame.todo = task :: (todo ++ rest.flatMap Frame.todo) := by
    rw [top]
    rfl
  rcases agenda_run m stops next now with same | ⟨rfl, step⟩
  · exact .inl (eq.trans (same.trans view))
  · rw [← eq, view] at step
    refine .inr ⟨_, step, fun task' run => ?_, nofun, nofun⟩
    cases run
    exact event

variable [DecidableEq Uuid] {c : Nat}

/-- Closing on the thread of `l`, with the same tasks still to run. -/
theorem moved_close {k : Conn Uuid} (eq : t = s.netFdCloseHandle l c k frames)
    (same : frames.flatMap Frame.todo = (s.stack l).flatMap Frame.todo) :
    t.agenda m stops = s.agenda m stops ∨ ∃ a, Moved s e t m stops a := by
  subst eq
  rcases agenda_close m stops s l c k frames with stays | step
  · exact .inl (stays.trans (agenda_goto m stops same))
  · exact .inr (moved_post step nofun)

theorem step_agenda (h : Step s e t) (m : Loop) (stops : List Bool) :
    t.agenda m stops = s.agenda m stops ∨ ∃ a, Moved s e t m stops a := by
  cases h with
  | accept uuid home idle place =>
    exact .inl (agenda_goto m stops (s := (s.addConn _).hashTableInsert _ _)
      (by simp [idle, Frame.todo]))
  | attachHere c k rest top here home live =>
    exact .inl (agenda_goto m stops (s := s.setConn _ _) (by simp [top, Frame.todo]))
  | attachThere c k rest i top here home =>
    have view : ((s.post (.io i) (.attach c)).goto .control rest).agenda m stops =
        (s.post (.io i) (.attach c)).agenda m stops :=
      agenda_goto m stops (by simp [top, Frame.todo])
    rcases agenda_post m stops s (.io i) (.attach c) with same | ⟨_, step⟩
    · exact .inl (view.trans same)
    · rw [← view] at step
      exact .inr (moved_post step fun _ eq => by cases eq)
  | take l idle due =>
    have batch : [Frame.batch [] (s.queue l)].flatMap Frame.todo =
        s.queue l ++ (s.stack l).flatMap Frame.todo := by
      simp [idle, Frame.todo]
    rcases agenda_take m stops batch with same | ⟨_, step⟩
    · exact .inl same
    · exact .inr (moved_take step)
  | runAttach l c k ran todo rest top here live =>
    exact moved_run (u := s.setConn c { k with registered := true }) top rfl rfl rfl rfl
  | runClose l c k ran todo rest top here =>
    rcases agenda_close m stops s l c k (.batch (ran ++ [.close c]) todo :: rest) with stays | step
    · exact moved_run top rfl rfl stays rfl
    · exact .inr (moved_post step fun _ eq => by cases eq)
  | runRemove c k ran todo rest top here =>
    exact moved_run (u := s.hashTableRemove k.uuid) top rfl rfl rfl rfl
  | ready l c k idle here home watched =>
    exact .inl (agenda_goto m stops (by simp [idle, Frame.todo]))
  | halfSkipped l c half rest top more =>
    exact .inl (agenda_goto m stops (by simp [top, Frame.todo]))
  | halfCalled l c k half rest top more here live =>
    exact .inl (agenda_goto m stops (by simp [top, Frame.todo]))
  | halfFailed l c k half rest top more here live =>
    exact moved_close rfl (by simp [top, Frame.todo])
  | fail l c k here home runs => exact moved_close rfl rfl
  | close l c k here home runs => exact moved_close rfl rfl
  | postClose c k here =>
    rcases agenda_post m stops s k.home (.close c) with same | ⟨_, step⟩
    · exact .inl same
    · refine .inr (moved_post step fun d eq => ?_)
      cases eq
      rfl
  | finish l f rest top finished =>
    exact .inl (agenda_goto m stops (by simp [top, Frame.todo_of_finished finished]))

/-- A task stays queued until it is run. -/
theorem step_queued {task : Task} (h : Step s e t) (queued : task ∈ s.queued m) :
    task ∈ t.queued m ∨ e = .run m task := by
  rcases step_agenda h m [] with same | ⟨a, moved⟩
  · have pending : task ∈ (s.agenda m []).pending := queued
    rw [← same] at pending
    exact .inl pending
  · rcases moved.step.stays queued with later | run | ⟨clear, _⟩
    · exact .inl later
    · exact .inr (moved.ran task run)
    · exact absurd clear moved.kept

/-- Only `close()` queues a close. -/
theorem close_queued (h : Step s e t) (queued : .close c ∈ t.queued m) :
    .close c ∈ s.queued m ∨ e = .postClose c := by
  rcases step_agenda h m [] with same | ⟨a, moved⟩
  · have pending : .close c ∈ (t.agenda m []).pending := queued
    rw [same] at pending
    exact .inl pending
  · exact (moved.step.known (List.mem_append_right _ queued)).imp_right (moved.posted c)

end Server

end Libatp.Tcp
