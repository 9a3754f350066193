import Libatp.Base.System

/-!
# A queue that is taken in batches

Tasks are posted to the end of a queue. Who runs them takes the queue as a whole and runs
what it took one by one. A handler ends all this: it takes and runs what has been queued in
the meantime until it finds nothing, asks for the end, and throws away what has come since.
It may be called inside a batch, whose rest then waits for it.
-/

namespace Libatp.Base

/-- `todo` is what the batches under way have still to run, the innermost first. `stops` are
the calls of the handler, the innermost first, and whether they have asked for the end. -/
structure Agenda (Task : Type) where
  todo : List Task
  waiting : List Task
  stops : List Bool
  deriving DecidableEq, Repr

namespace Agenda

variable {Task : Type}

inductive Event (Task : Type) where
  | post (task : Task)
  | take
  | run (task : Task)
  /-- the handler is called -/
  | stop
  | exit
  | clear
  deriving DecidableEq, Repr

def Event.ran : Event Task → List Task
  | .run task => [task]
  | .post _ | .take | .stop | .exit | .clear => []

inductive Step : Agenda Task → Event Task → Agenda Task → Prop
  | post (d task) : Step d (.post task) { d with waiting := d.waiting ++ [task] }
  | take (d) : Step d .take { d with todo := d.waiting ++ d.todo, waiting := [] }
  | run (d task rest) (next : d.todo = task :: rest) : Step d (.run task) { d with todo := rest }
  /-- the task is a call of the handler -/
  | runStop (d task rest) (next : d.todo = task :: rest) :
      Step d (.run task) { d with todo := rest, stops := false :: d.stops }
  | stop (d) : Step d .stop { d with stops := false :: d.stops }
  | exit (d rest) (inside : d.stops = false :: rest) (none : d.waiting = []) :
      Step d .exit { d with stops := true :: rest }
  | clear (d rest) (inside : d.stops = true :: rest) :
      Step d .clear { d with waiting := [], stops := rest }

/-- What was posted and has not been run. -/
def pending (d : Agenda Task) : List Task := d.todo ++ d.waiting

variable {d d' : Agenda Task} {e : Event Task} {task : Task}

/-- A task stays until it is run, or until the handler clears the queue. -/
theorem Step.stays (h : Step d e d') (here : task ∈ d.pending) :
    task ∈ d'.pending ∨ e = .run task ∨ e = .clear ∧ task ∈ d.waiting := by
  have run {other : Task} {rest : List Task} {stops : List Bool}
      (next : d.todo = other :: rest) :
      task ∈ (⟨rest, d.waiting, stops⟩ : Agenda Task).pending ∨ other = task := by
    rw [pending, next, List.cons_append, List.mem_cons] at here
    exact here.symm.imp_right Eq.symm
  cases h with
  | post other =>
    rw [pending] at here ⊢
    rw [← List.append_assoc]
    exact .inl (List.mem_append_left _ here)
  | take =>
    left
    rw [pending, List.append_nil]
    exact List.perm_append_comm.mem_iff.mp here
  | run other rest next | runStop other rest next =>
    exact (run next).imp_right fun same => .inl (congrArg Event.run same)
  | stop => exact .inl here
  | exit rest inside none => exact .inl here
  | clear rest inside =>
    rcases List.mem_append.mp here with todo | waiting
    · exact .inl (List.mem_append_left _ todo)
    · exact .inr (.inr ⟨rfl, waiting⟩)

/-- What is run, or is left after a step, was there before it or was posted by it. -/
theorem Step.known (h : Step d e d') (there : task ∈ e.ran ++ d'.pending) :
    task ∈ d.pending ∨ e = .post task := by
  cases h with
  | post other =>
    rw [Event.ran, List.nil_append, pending, ← List.append_assoc] at there
    rcases List.mem_append.mp there with before | new
    · exact .inl before
    · exact .inr (List.mem_singleton.mp new ▸ rfl)
  | take =>
    rw [Event.ran, List.nil_append, pending, List.append_nil] at there
    exact .inl (List.perm_append_comm.mem_iff.mp there)
  | run other rest next | runStop other rest next =>
    left
    rw [pending, next]
    exact there
  | stop => exact .inl there
  | exit rest inside none => exact .inl there
  | clear rest inside =>
    rw [Event.ran, List.nil_append, pending, List.append_nil] at there
    exact .inl (List.mem_append_left _ there)

/-- Tasks keep an order in which every new one comes last, if a batch that is taken inside
another may pass what is left of that. -/
theorem Step.pairwise {r : Task → Task → Prop} {ran : List Task} (h : Step d e d')
    (posted : ∀ task, e = .post task → ∀ a ∈ ran ++ d.pending, r a task)
    (taken : e = .take → ∀ a ∈ d.todo, ∀ b ∈ d.waiting, r a b → r b a)
    (hs : (ran ++ d.pending).Pairwise r) : (ran ++ e.ran ++ d'.pending).Pairwise r := by
  rw [List.append_assoc]
  cases h with
  | post task =>
    rw [Event.ran, List.nil_append, pending, ← List.append_assoc, ← List.append_assoc,
      List.append_assoc ran, List.pairwise_append]
    refine ⟨hs, List.pairwise_singleton _ _, fun a before b new => ?_⟩
    rw [List.mem_singleton.mp new]
    exact posted task rfl a before
  | take =>
    rw [pending, List.pairwise_append, List.pairwise_append] at hs
    obtain ⟨first, ⟨second, third, between⟩, across⟩ := hs
    rw [Event.ran, List.nil_append, pending, List.append_nil, List.pairwise_append,
      List.pairwise_append]
    refine ⟨first, ⟨third, second, fun b waiting a todo => ?_⟩, fun a before b after => ?_⟩
    · exact taken rfl a todo b waiting (between a todo b waiting)
    · exact across a before b (List.perm_append_comm.mem_iff.mp after)
  | run task rest next | runStop task rest next =>
    rw [pending, next] at hs
    exact hs
  | stop => exact hs
  | exit rest inside none => exact hs
  | clear rest inside =>
    rw [Event.ran, List.nil_append, pending, List.append_nil]
    rw [pending, ← List.append_assoc] at hs
    exact hs.sublist (List.sublist_append_left _ _)

end Agenda

def agenda (Task : Type) : System (Agenda Task) (Agenda.Event Task) where
  start d := d = ⟨[], [], []⟩
  step := Agenda.Step

/-- Whatever was posted first can be run next: it is in a batch, or it is taken now. -/
theorem Agenda.exists_run {Task : Type} {d : Agenda Task} {task : Task} {rest : List Task}
    {stops : List Bool} (h : (agenda Task).Reachable d) (next : d.pending = task :: rest)
    (called : stops = d.stops ∨ stops = false :: d.stops) :
    ∃ d', (agenda Task).Reachable d' ∧ d'.pending = rest ∧ d'.stops = stops := by
  have ready {d : Agenda Task} (todo : List Task) (run : (agenda Task).Reachable d)
      (next : d.todo = task :: todo) (called : stops = d.stops ∨ stops = false :: d.stops) :
      ∃ d', (agenda Task).Reachable d' ∧ d'.pending = todo ++ d.waiting ∧ d'.stops = stops := by
    rcases called with rfl | rfl
    · exact ⟨_, run.next (.run d task todo next), rfl, rfl⟩
    · exact ⟨_, run.next (.runStop d task todo next), rfl, rfl⟩
  cases batch : d.todo with
  | nil =>
    rw [pending, batch, List.nil_append] at next
    have taken := h.next (Step.take d)
    obtain ⟨d', run, left, same⟩ := ready rest taken (by rw [batch, next]; simp) called
    exact ⟨d', run, left.trans (List.append_nil rest), same⟩
  | cons first todo =>
    rw [pending, batch, List.cons_append, List.cons.injEq] at next
    obtain ⟨rfl, rfl⟩ := next
    exact ready todo h batch called

end Libatp.Base
