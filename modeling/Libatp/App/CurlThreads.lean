import Libatp.App.CurlEngine
import Libatp.Base.Progress
import Mathlib.Logic.Function.Basic

/-!
# Many instances of `curl_instance` (`app/atp_curl_engine.cpp`, `app/atp_thread_storage.hpp`)

An instance has no easy handle of its own: `core_init` takes the one that the calling thread
keeps in `curl_tls`, makes it if it is the thread's first, and points it at the instance. The
handle lives until its thread exits. So what a request sends and where its response goes is
decided by everything that was done through any instance of that thread.

Threads take turns; libcurl forbids two of them to use one handle at once.
-/

namespace Libatp.App
open Base

/-- The options of an easy handle that this code sets. -/
structure Options where
  nosignal : Int
  timeout : Int
  connectTimeout : Int
  userAgent : String
  url : Option String
  headers : List String
  postFields : Option (List Byte)
  postFieldSize : Int
  postRedirAll : Bool
  verifyPeer : Int
  deriving DecidableEq, Repr

/-- `curl_easy_init` and `curl_tls_init` -/
def Options.tlsInit : Options where
  nosignal := 1
  timeout := 30
  connectTimeout := 5
  userAgent := "CURL_ENGINE(1.0)"
  url := none
  headers := []
  postFields := none
  postFieldSize := -1
  postRedirAll := false
  verifyPeer := 1

/-- The calls of `curl_instance_set_*`. -/
inductive Setting where
  | sslVerifypeer (verifypeer : Int)
  | headers (headers : List String)
  | url (url : String)
  | data (data : List Byte) (size : Int)
  deriving DecidableEq, Repr

def Options.set (o : Options) : Setting → Options
  | .sslVerifypeer verifypeer => { o with verifyPeer := verifypeer }
  | .headers headers => { o with headers := headers }
  | .url url => { o with url := some url }
  | .data data size =>
    { o with postFields := some data, postFieldSize := size, postRedirAll := true }

/-- The instance that a pointer was made for. `calloc` may give its address again when it was
destroyed, and what is there then has another number. -/
structure Place where
  address : Nat
  serial : Nat
  deriving DecidableEq, Repr

/-- What `curl_tls` keeps for a thread. -/
structure Handle where
  /-- `CURLOPT_WRITEDATA` -/
  writeData : Option Place
  options : Options

/-- An instance: the thread whose handle it uses, how many were created before it, and
`resp_data`. -/
structure Owner (Thread : Type) where
  thread : Thread
  serial : Nat
  resp : CurlInstance

/-- Instances are at their addresses. `created`, the latest first, and `settings`, the earliest
first, are histories. -/
structure Engine (Thread : Type) where
  handle : Thread → Option Handle
  ended : Thread → Bool
  instances : Nat → Option (Owner Thread)
  created : List (Thread × Place)
  settings : List (Thread × Setting)

namespace Engine

variable {Thread : Type} [DecidableEq Thread]

omit [DecidableEq Thread] in
def start : Engine Thread where
  handle := fun _ => none
  ended := fun _ => false
  instances := fun _ => none
  created := []
  settings := []

/-- `threadstorage_get(&curl_tls, ..)`; `made` says whether a new handle could be had. -/
def threadstorageGet (s : Engine Thread) (t : Thread) (made : Bool) :
    Engine Thread × Option Handle :=
  match s.handle t with
  | some h => (s, some h)
  | none =>
    if made then
      let h : Handle := ⟨none, .tlsInit⟩
      ({ s with handle := Function.update s.handle t (some h) }, some h)
    else (s, none)

/-- `curl_instance_new` on thread `t`; `mem` is what `calloc` gave. -/
def curlInstanceNew (s : Engine Thread) (t : Thread) (mem : Option Nat) (made : Bool) :
    Engine Thread × Option Nat :=
  match mem with
  | none => (s, none)
  | some a =>
    match s.threadstorageGet t made with
    | (s, none) => (s, none)
    | (s, some h) =>
      let p : Place := ⟨a, s.created.length⟩
      ({ s with
          handle := Function.update s.handle t (some { h with writeData := some p })
          instances := Function.update s.instances a (some ⟨t, p.serial, .init⟩)
          created := (t, p) :: s.created }, some a)

/-- Calls are made with instances that were not destroyed. -/
def find (s : Engine Thread) (a : Nat) : Checked (Owner Thread) :=
  match s.instances a with
  | none => .error .ruledOut
  | some i => .ok i

/-- `*instance->curl`; the handle is freed when its thread exits. -/
def curl (s : Engine Thread) (i : Owner Thread) : Checked Handle :=
  match s.handle i.thread with
  | none => .error .outOfBounds
  | some h => .ok h

/-- `core_set_ssl_verifypeer`, `core_set_headers`, `core_set_url` and `core_set_data` -/
def set (s : Engine Thread) (a : Nat) (setting : Setting) : Checked (Engine Thread) := do
  let i ← s.find a
  let h ← s.curl i
  return { s with
    handle := Function.update s.handle i.thread (some { h with options := h.options.set setting })
    settings := s.settings ++ [(i.thread, setting)] }

def setResp (s : Engine Thread) (a : Nat) (i : Owner Thread) (resp : CurlInstance) :
    Engine Thread :=
  { s with instances := Function.update s.instances a (some { i with resp := resp }) }

/-- What a pointer leads to, if that was not destroyed. -/
def living (s : Engine Thread) (p : Place) : Option (Owner Thread) :=
  (s.instances p.address).filter fun i => i.serial = p.serial

/-- The calls of `on_message` that libcurl makes, through the pointer it was given. -/
def respond (s : Engine Thread) (writeData : Option Place) (chunks : List Chunk) :
    Checked (Engine Thread) :=
  match chunks, writeData with
  | [], _ => .ok s
  | _ :: _, none => .error .nullPointer
  | _ :: _, some p =>
    match s.living p with
    | none => .error .outOfBounds
    | some i => do
      let resp ← deliver i.resp chunks
      return s.setResp p.address i resp

/-- `core_perform`, with the options the request was made with. -/
def perform (s : Engine Thread) (a : Nat) (transfer : Transfer) :
    Checked (Engine Thread × Options) := do
  let i ← s.find a
  let s := s.setResp a i { i.resp with cursor := 0 }
  let h ← s.curl i
  let s ← s.respond h.writeData transfer.chunks
  return (s, h.options)

/-- `core_destroy` -/
def destroy (s : Engine Thread) (a : Nat) : Checked (Engine Thread) := do
  let _ ← s.find a
  return { s with instances := Function.update s.instances a none }

/-- A thread exits, and `curl_tls_cleanup` is called for what it kept. -/
def exit (s : Engine Thread) (t : Thread) : Engine Thread :=
  { s with
    handle := Function.update s.handle t none
    ended := Function.update s.ended t true }

/-! ## Runs -/

inductive Call (Thread : Type) where
  | new (t : Thread) (mem : Option Nat) (made : Bool)
  | set (a : Nat) (setting : Setting)
  | perform (a : Nat) (transfer : Transfer)
  | destroy (a : Nat)
  | exit (t : Thread)

def exec (s : Engine Thread) : Call Thread → Checked (Engine Thread)
  | .new t mem made =>
    -- a thread that has exited calls nothing, and `calloc` gives what is not in use
    if s.ended t = true ∨ (mem.bind s.instances).isSome then .error .ruledOut
    else .ok (s.curlInstanceNew t mem made).1
  | .set a setting => s.set a setting
  | .perform a transfer => do
    let (s, _) ← s.perform a transfer
    return s
  | .destroy a => s.destroy a
  | .exit t => .ok (s.exit t)

end Engine

open Engine

def curlEngine (Thread : Type) [DecidableEq Thread] : System (Engine Thread) (Call Thread) where
  start s := s = .start
  step s call s' := s.exec call = .ok s'

/-! ## What the handles hold -/

section
variable {Thread : Type} [DecidableEq Thread]

/-- The instance that was created last on a thread. -/
def latest (created : List (Thread × Place)) (t : Thread) : Option Place :=
  (created.find? fun c => c.1 = t).map Prod.snd

/-- The options that a thread chose, through whichever instance. -/
def chosen (settings : List (Thread × Setting)) (t : Thread) : Options :=
  ((settings.filter fun c => c.1 = t).map Prod.snd).foldl Options.set .tlsInit

theorem latest_cons_self (created : List (Thread × Place)) (t : Thread) (p : Place) :
    latest ((t, p) :: created) t = some p := by
  simp [latest]

theorem latest_cons_of_ne (created : List (Thread × Place)) {t u : Thread} (p : Place)
    (h : t ≠ u) : latest ((u, p) :: created) t = latest created t := by
  simp [latest, h.symm]

theorem chosen_append_self (settings : List (Thread × Setting)) (t : Thread) (x : Setting) :
    chosen (settings ++ [(t, x)]) t = (chosen settings t).set x := by
  simp [chosen]

theorem chosen_append_of_ne (settings : List (Thread × Setting)) {t u : Thread} (x : Setting)
    (h : t ≠ u) : chosen (settings ++ [(u, x)]) t = chosen settings t := by
  simp [chosen, h.symm]

section
variable {handle : Thread → Option Handle} {ended : Thread → Bool} {created : List (Thread × Place)}
  {settings : List (Thread × Setting)} {instances : Nat → Option (Owner Thread)}
  {t : Thread} {g : Handle} {a : Nat} {i : Owner Thread}

/-- A handle points at the latest instance of its thread and has what the thread chose. -/
structure Handled (handle : Thread → Option Handle) (ended : Thread → Bool)
    (created : List (Thread × Place)) (settings : List (Thread × Setting)) : Prop where
  writeData : ∀ {t g}, handle t = some g → g.writeData = latest created t
  options : ∀ {t g}, handle t = some g → g.options = chosen settings t
  unset : ∀ {t}, handle t = none → ended t = false → chosen settings t = .tlsInit
  gone : ∀ {t}, ended t = true → handle t = none

/-- An instance has lost its handle only if its thread has exited. -/
structure Kept (handle : Thread → Option Handle) (ended : Thread → Bool)
    (instances : Nat → Option (Owner Thread)) : Prop where
  held : ∀ {a i}, instances a = some i → handle i.thread = none → ended i.thread = true
  filled : ∀ {a i}, instances a = some i → ∃ bytes, Holds i.resp bytes

/-- Every instance is where it was created, and no two were created with one number. -/
structure Placed (created : List (Thread × Place)) (instances : Nat → Option (Owner Thread)) :
    Prop where
  made : ∀ {a i}, instances a = some i → (i.thread, ⟨a, i.serial⟩) ∈ created
  below : ∀ c ∈ created, c.2.serial < created.length
  once : ∀ c ∈ created, ∀ d ∈ created, c.2.serial = d.2.serial → c = d

/-- Whatever handle the thread gets, it has the options chosen so far. -/
theorem Handled.new (h : Handled handle ended created settings) (running : ended t = false)
    (options : g.options = chosen settings t) (p : Place) :
    Handled (Function.update handle t (some { g with writeData := some p })) ended
      ((t, p) :: created) settings := by
  constructor
  · intro u g' here
    by_cases same : u = t
    · subst same
      rw [Function.update_self] at here
      cases here
      exact (latest_cons_self ..).symm
    · rw [Function.update_of_ne same] at here
      rw [latest_cons_of_ne _ _ same]
      exact h.writeData here
  · intro u g' here
    by_cases same : u = t
    · subst same
      rw [Function.update_self] at here
      cases here
      exact options
    · rw [Function.update_of_ne same] at here
      exact h.options here
  · intro u none
    by_cases same : u = t
    · subst same
      rw [Function.update_self] at none
      cases none
    · rw [Function.update_of_ne same] at none
      exact h.unset none
  · intro u over_
    have same : u ≠ t := by
      rintro rfl
      cases running.symm.trans over_
    rw [Function.update_of_ne same]
    exact h.gone over_

theorem Handled.set (h : Handled handle ended created settings) (there : handle t = some g)
    (x : Setting) :
    Handled (Function.update handle t (some { g with options := g.options.set x })) ended
      created (settings ++ [(t, x)]) := by
  constructor
  · intro u g' here
    by_cases same : u = t
    · subst same
      rw [Function.update_self] at here
      cases here
      exact (h.writeData there : g.writeData = _)
    · rw [Function.update_of_ne same] at here
      exact h.writeData here
  · intro u g' here
    by_cases same : u = t
    · subst same
      rw [Function.update_self] at here
      cases here
      rw [chosen_append_self, ← h.options there]
    · rw [Function.update_of_ne same] at here
      rw [chosen_append_of_ne _ _ same]
      exact h.options here
  · intro u none
    by_cases same : u = t
    · subst same
      rw [Function.update_self] at none
      cases none
    · rw [Function.update_of_ne same] at none
      rw [chosen_append_of_ne _ _ same]
      exact h.unset none
  · intro u over_
    have same : u ≠ t := by
      rintro rfl
      cases there.symm.trans (h.gone over_)
    rw [Function.update_of_ne same]
    exact h.gone over_

theorem Handled.exit (h : Handled handle ended created settings) (t : Thread) :
    Handled (Function.update handle t none) (Function.update ended t true) created settings := by
  have still {u : Thread} {g : Handle} (here : Function.update handle t none u = some g) :
      handle u = some g := by
    by_cases same : u = t
    · rw [same, Function.update_self] at here
      cases here
    · rwa [Function.update_of_ne same] at here
  constructor
  · exact fun here => h.writeData (still here)
  · exact fun here => h.options (still here)
  · intro u none running
    by_cases same : u = t
    · rw [same, Function.update_self] at running
      cases running
    · rw [Function.update_of_ne same] at none running
      exact h.unset none running
  · intro u over_
    by_cases same : u = t
    · rw [same, Function.update_self]
    · rw [Function.update_of_ne same] at over_ ⊢
      exact h.gone over_

/-- A thread that has a handle keeps one. -/
theorem Kept.keep (h : Kept handle ended instances) (t : Thread) (g : Handle) :
    Kept (Function.update handle t (some g)) ended instances where
  held := by
    intro a i there none
    by_cases same : i.thread = t
    · rw [same, Function.update_self] at none
      cases none
    · rw [Function.update_of_ne same] at none
      exact h.held there none
  filled := h.filled

omit [DecidableEq Thread] in
theorem Kept.put (h : Kept handle ended instances) (a : Nat)
    (held : handle i.thread = none → ended i.thread = true) {bytes : List Byte}
    (holds : Holds i.resp bytes) : Kept handle ended (Function.update instances a (some i)) where
  held := by
    intro c j there none
    by_cases same : c = a
    · rw [same, Function.update_self] at there
      cases there
      exact held none
    · rw [Function.update_of_ne same] at there
      exact h.held there none
  filled := by
    intro c j there
    by_cases same : c = a
    · rw [same, Function.update_self] at there
      cases there
      exact ⟨bytes, holds⟩
    · rw [Function.update_of_ne same] at there
      exact h.filled there

omit [DecidableEq Thread] in
theorem Kept.destroy (h : Kept handle ended instances) (a : Nat) :
    Kept handle ended (Function.update instances a none) := by
  have still {c : Nat} {j : Owner Thread} (there : Function.update instances a none c = some j) :
      instances c = some j := by
    by_cases same : c = a
    · rw [same, Function.update_self] at there
      cases there
    · rwa [Function.update_of_ne same] at there
  exact ⟨fun there => h.held (still there), fun there => h.filled (still there)⟩

omit [DecidableEq Thread] in
theorem Placed.new (h : Placed created instances) (t : Thread) (a : Nat) (resp : CurlInstance) :
    Placed ((t, ⟨a, created.length⟩) :: created)
      (Function.update instances a (some ⟨t, created.length, resp⟩)) where
  made := by
    intro c j there
    by_cases same : c = a
    · subst same
      rw [Function.update_self] at there
      cases there
      exact List.mem_cons_self
    · rw [Function.update_of_ne same] at there
      exact List.mem_cons_of_mem _ (h.made there)
  below := by
    intro c mem
    rw [List.length_cons]
    rcases List.mem_cons.mp mem with rfl | old
    · exact Nat.lt_succ_self _
    · exact Nat.lt_succ_of_lt (h.below c old)
  once := by
    intro c mem d mem' same
    rcases List.mem_cons.mp mem with rfl | old <;> rcases List.mem_cons.mp mem' with rfl | old'
    · rfl
    · exact absurd same.symm (Nat.ne_of_lt (h.below d old'))
    · exact absurd same (Nat.ne_of_lt (h.below c old))
    · exact h.once c old d old' same

omit [DecidableEq Thread] in
theorem Placed.put (h : Placed created instances) (there : instances a = some i)
    (resp : CurlInstance) :
    Placed created (Function.update instances a (some { i with resp := resp })) where
  made := by
    intro c j here
    by_cases same : c = a
    · subst same
      rw [Function.update_self] at here
      cases here
      exact h.made (i := i) there
    · rw [Function.update_of_ne same] at here
      exact h.made here
  below := h.below
  once := h.once

omit [DecidableEq Thread] in
theorem Placed.destroy (h : Placed created instances) (a : Nat) :
    Placed created (Function.update instances a none) where
  made := by
    intro c j there
    by_cases same : c = a
    · rw [same, Function.update_self] at there
      cases there
    · rw [Function.update_of_ne same] at there
      exact h.made there
  below := h.below
  once := h.once

theorem Kept.exit (h : Kept handle ended instances) (t : Thread) :
    Kept (Function.update handle t none) (Function.update ended t true) instances where
  held := by
    intro a i there none
    by_cases same : i.thread = t
    · rw [same, Function.update_self]
    · rw [Function.update_of_ne same] at none ⊢
      exact h.held there none
  filled := h.filled

end

structure Coherent (s : Engine Thread) : Prop where
  handled : Handled s.handle s.ended s.created s.settings
  kept : Kept s.handle s.ended s.instances
  placed : Placed s.created s.instances

variable {s s' : Engine Thread} {a : Nat} {i : Owner Thread}

theorem coherent_new {t : Thread} (h : Coherent s) (running : s.ended t = false)
    (mem : Option Nat) (made : Bool) : Coherent (s.curlInstanceNew t mem made).1 := by
  have fresh (b n : Nat) (g : Handle) : Kept (Function.update s.handle t (some g)) s.ended
      (Function.update s.instances b (some ⟨t, n, .init⟩)) :=
    (h.kept.keep t g).put b (fun none => by rw [Function.update_self] at none; cases none)
      (holds_nil init_allocated)
  cases mem with
  | none => exact h
  | some b =>
    cases found : s.handle t with
    | some g =>
      simp only [curlInstanceNew, threadstorageGet, found]
      exact ⟨h.handled.new running (h.handled.options found) _, fresh b _ _, h.placed.new t b _⟩
    | none =>
      cases made with
      | false =>
        simp only [curlInstanceNew, threadstorageGet, found]
        exact h
      | true =>
        simp only [curlInstanceNew, threadstorageGet, found, if_true, Function.update_idem]
        exact ⟨h.handled.new (g := ⟨none, .tlsInit⟩) running
          (h.handled.unset found running).symm _, fresh b _ _, h.placed.new t b _⟩

theorem coherent_setResp (h : Coherent s) (there : s.instances a = some i) {resp : CurlInstance}
    {bytes : List Byte} (holds : Holds resp bytes) : Coherent (s.setResp a i resp) :=
  ⟨h.handled, h.kept.put a (fun none => h.kept.held (i := i) there none) holds,
    h.placed.put there resp⟩

/-! ## One request -/

omit [DecidableEq Thread] in
@[simp] theorem setResp_self (s : Engine Thread) (a : Nat) (i : Owner Thread)
    (resp : CurlInstance) : (s.setResp a i resp).instances a = some { i with resp := resp } :=
  Function.update_self ..

omit [DecidableEq Thread] in
theorem setResp_of_ne {b : Nat} (s : Engine Thread) (i : Owner Thread) (resp : CurlInstance)
    (other : b ≠ a) : (s.setResp a i resp).instances b = s.instances b :=
  Function.update_of_ne other ..

omit [DecidableEq Thread] in
theorem living_eq_some {p : Place} :
    s.living p = some i ↔ s.instances p.address = some i ∧ i.serial = p.serial := by
  rw [living, Option.filter_eq_some_iff, decide_eq_true_iff]

omit [DecidableEq Thread] in
/-- The pieces go through the pointer that the handle has. -/
theorem respond_some {p : Place} {j : Owner Thread} {bytes : List Byte} {chunks : List Chunk}
    (some_ : chunks ≠ []) (there : s.living p = some j) (holds : Holds j.resp bytes) :
    (bytes.length + (chunks.map Chunk.data).flatten.length ≤ defaultBufferSize →
      ∃ resp, s.respond (some p) chunks = .ok (s.setResp p.address j resp) ∧
        Holds resp (bytes ++ (chunks.map Chunk.data).flatten)) ∧
    (defaultBufferSize < bytes.length + (chunks.map Chunk.data).flatten.length →
      s.respond (some p) chunks = .error .outOfBounds) := by
  cases chunks with
  | nil => exact absurd rfl some_
  | cons chunk rest =>
    have call : s.respond (some p) (chunk :: rest) =
        (deliver j.resp (chunk :: rest) >>= fun resp => .ok (s.setResp p.address j resp)) := by
      simp only [respond, there]
      rfl
    constructor
    · intro room
      obtain ⟨resp, run, holds'⟩ := deliver_inside holds (chunk :: rest) room
      exact ⟨resp, by rw [call, run, ok_bind], holds'⟩
    · intro past
      rw [call, deliver_past holds past]
      rfl

omit [DecidableEq Thread] in
theorem respond_null {chunks : List Chunk} (some_ : chunks ≠ []) :
    s.respond none chunks = .error .nullPointer := by
  cases chunks with
  | nil => exact absurd rfl some_
  | cons chunk rest => rfl

omit [DecidableEq Thread] in
theorem respond_dangling {p : Place} {chunks : List Chunk} (some_ : chunks ≠ [])
    (gone : s.living p = none) : s.respond (some p) chunks = .error .outOfBounds := by
  cases chunks with
  | nil => exact absurd rfl some_
  | cons chunk rest => simp only [respond, gone]

omit [DecidableEq Thread] in
theorem perform_eq (there : s.instances a = some i) (transfer : Transfer) :
    s.perform a transfer = (s.curl i >>= fun g =>
      (s.setResp a i { i.resp with cursor := 0 }).respond g.writeData transfer.chunks >>=
        fun s' => .ok (s', g.options)) := by
  simp only [perform, find, there]
  rfl

/-- The instance is told to begin: its cursor goes back to the start of its buffer. -/
def begun (s : Engine Thread) (a : Nat) (i : Owner Thread) : Engine Thread :=
  s.setResp a i { i.resp with cursor := 0 }

/-- How much of the buffer of `j`, at `b`, is taken when a request through `a` has begun. -/
def cursorAt (a b : Nat) (j : Owner Thread) : Int := if b = a then 0 else j.resp.cursor

theorem begun_coherent (h : Coherent s) (there : s.instances a = some i) :
    Coherent (begun s a i) := by
  obtain ⟨bytes, holds⟩ := h.kept.filled there
  exact coherent_setResp h there (holds_nil holds.toAllocated)

omit [DecidableEq Thread] in
/-- Beginning destroys and creates nothing. -/
theorem living_begun {p : Place} (there : s.instances a = some i) :
    (begun s a i).living p = none ↔ s.living p = none := by
  by_cases same : p.address = a
  · simp [living, begun, same, there]
  · simp [living, begun, setResp_of_ne _ _ _ same]

theorem begun_holds (h : Coherent s) (there : s.instances a = some i) {p : Place}
    {j : Owner Thread} (target : s.living p = some j) :
    ∃ j' bytes, (begun s a i).living p = some j' ∧ Holds j'.resp bytes ∧
      cursorAt a p.address j = bytes.length := by
  obtain ⟨found, serial⟩ := living_eq_some.mp target
  by_cases same : p.address = a
  · obtain ⟨bytes, holds⟩ := h.kept.filled there
    rw [same, there] at found
    cases found
    refine ⟨{ i with resp := { i.resp with cursor := 0 } }, [], living_eq_some.mpr ⟨?_, serial⟩,
      holds_nil holds.toAllocated, if_pos same⟩
    rw [same]
    exact setResp_self ..
  · obtain ⟨bytes, holds⟩ := h.kept.filled found
    refine ⟨j, bytes, living_eq_some.mpr ⟨?_, serial⟩, holds, ?_⟩
    · rw [begun, setResp_of_ne _ _ _ same, found]
    · rw [cursorAt, if_neg same, holds.cursor]

theorem curl_ok (h : Coherent s) (there : s.instances a = some i)
    (running : s.ended i.thread = false) :
    ∃ g, s.curl i = .ok g ∧ g.writeData = latest s.created i.thread ∧
      g.options = chosen s.settings i.thread := by
  cases found : s.handle i.thread with
  | none => cases running.symm.trans (h.kept.held there found)
  | some g => exact ⟨g, by rw [curl, found], h.handled.writeData found, h.handled.options found⟩

theorem curl_running (h : Coherent s) {g : Handle} (ok : s.curl i = .ok g) :
    s.ended i.thread = false := by
  cases ended : s.ended i.thread with
  | false => rfl
  | true =>
    rw [curl, h.handled.gone ended] at ok
    cases ok

/-- A response goes to the instance that was created last on the thread of the one it was
asked for, behind what that one holds. -/
theorem respond_begun (h : Coherent s) (there : s.instances a = some i) {transfer : Transfer}
    (some_ : transfer.chunks ≠ []) {p : Place} {j : Owner Thread} (target : s.living p = some j) :
    (cursorAt a p.address j + transfer.body.length ≤ defaultBufferSize →
      ∃ j' resp bytes, (begun s a i).respond (some p) transfer.chunks =
          .ok ((begun s a i).setResp p.address j' resp) ∧
        (begun s a i).living p = some j' ∧ cursorAt a p.address j = bytes.length ∧
        Holds resp (bytes ++ transfer.body)) ∧
    (defaultBufferSize < cursorAt a p.address j + transfer.body.length →
      (begun s a i).respond (some p) transfer.chunks = .error .outOfBounds) := by
  obtain ⟨j', bytes, here, holds, cursor⟩ := begun_holds h there target
  obtain ⟨inside, past⟩ := respond_some some_ here holds
  rw [cursor]
  constructor
  · intro room
    obtain ⟨resp, run, holds'⟩ := inside (by rw [← Transfer.body]; omega)
    exact ⟨j', resp, bytes, run, here, rfl, holds'⟩
  · intro more
    exact past (by rw [← Transfer.body]; omega)

/-- What a request that returns has done. -/
theorem perform_cases (h : Coherent s) (there : s.instances a = some i) {transfer : Transfer}
    {options : Options} (ok : s.perform a transfer = .ok (s', options)) :
    s.ended i.thread = false ∧ options = chosen s.settings i.thread ∧
    ((transfer.chunks = [] ∧ s' = begun s a i) ∨
      ∃ p j j' resp bytes, latest s.created i.thread = some p ∧ s.living p = some j ∧
        cursorAt a p.address j + transfer.body.length ≤ defaultBufferSize ∧
        (begun s a i).living p = some j' ∧ s' = (begun s a i).setResp p.address j' resp ∧
        cursorAt a p.address j = List.length bytes ∧ Holds resp (bytes ++ transfer.body)) := by
  rw [perform_eq there] at ok
  obtain ⟨g, found, ok⟩ := bind_ok_iff.mp ok
  obtain ⟨s₁, responded, ok⟩ := bind_ok_iff.mp ok
  cases ok
  change (begun s a i).respond g.writeData transfer.chunks = .ok s' at responded
  have running := curl_running h found
  obtain ⟨g', found', writeData, options⟩ := curl_ok h there running
  cases found'.symm.trans found
  refine ⟨running, options, ?_⟩
  rw [writeData] at responded
  by_cases none_ : transfer.chunks = []
  · rw [none_, respond] at responded
    cases responded
    exact .inl ⟨none_, rfl⟩
  · right
    cases target : latest s.created i.thread with
    | none =>
      rw [target, respond_null none_] at responded
      cases responded
    | some p =>
      rw [target] at responded
      cases found : s.living p with
      | none =>
        rw [respond_dangling none_ ((living_begun there).mpr found)] at responded
        cases responded
      | some j =>
        obtain ⟨inside, past⟩ := respond_begun h there none_ found
        by_cases room : cursorAt a p.address j + transfer.body.length ≤ defaultBufferSize
        · obtain ⟨j', resp, bytes, run, here, cursor, holds⟩ := inside room
          cases run.symm.trans responded
          exact ⟨p, j, j', resp, bytes, rfl, found, room, here, rfl, cursor, holds⟩
        · rw [past (by omega)] at responded
          cases responded

theorem coherent_perform (h : Coherent s) {transfer : Transfer} {options : Options}
    (ok : s.perform a transfer = .ok (s', options)) : Coherent s' := by
  cases there : s.instances a with
  | none =>
    rw [perform, find, there] at ok
    cases ok
  | some i =>
    have started := begun_coherent h there
    rcases (perform_cases h there ok).2.2 with ⟨_, rfl⟩ |
      ⟨p, j, j', resp, bytes, _, _, _, here, rfl, _, holds⟩
    · exact started
    · exact coherent_setResp started (living_eq_some.mp here).1 holds

/-! ## Whole runs -/

theorem exec_coherent (h : Coherent s) {call : Call Thread} (step : s.exec call = .ok s') :
    Coherent s' := by
  cases call with
  | new t mem made =>
    rw [exec] at step
    split at step
    case isTrue => cases step
    case isFalse allowed =>
      cases step
      exact coherent_new h (by simpa using (not_or.mp allowed).1) mem made
  | set a setting =>
    obtain ⟨i, _, step⟩ := bind_ok_iff.mp step
    obtain ⟨g, found, step⟩ := bind_ok_iff.mp step
    cases step
    cases there : s.handle i.thread with
    | none =>
      rw [curl, there] at found
      cases found
    | some g' =>
      rw [curl, there] at found
      cases found
      exact ⟨h.handled.set there setting, h.kept.keep i.thread _, h.placed⟩
  | perform a transfer =>
    obtain ⟨⟨s₁, options⟩, ok, step⟩ := bind_ok_iff.mp step
    cases step
    exact coherent_perform h ok
  | destroy a =>
    obtain ⟨i, _, step⟩ := bind_ok_iff.mp step
    cases step
    exact ⟨h.handled, h.kept.destroy a, h.placed.destroy a⟩
  | exit t =>
    cases step
    exact ⟨h.handled.exit t, h.kept.exit t, h.placed⟩

theorem reachable_coherent (h : (curlEngine Thread).Reachable s) : Coherent s := by
  apply System.invariant _ _ _ h
  · rintro s rfl
    exact ⟨⟨nofun, nofun, fun _ _ => rfl, nofun⟩, ⟨nofun, nofun⟩, ⟨nofun, nofun, nofun⟩⟩
  · intro s call s' before step
    exact exec_coherent before step

theorem perform_ok (h : Coherent s) (there : s.instances a = some i) (transfer : Transfer)
    (running : s.ended i.thread = false)
    (fits : transfer.chunks = [] ∨ ∃ p j, latest s.created i.thread = some p ∧
      s.living p = some j ∧ cursorAt a p.address j + transfer.body.length ≤ defaultBufferSize) :
    ∃ result, s.perform a transfer = .ok result := by
  obtain ⟨g, found, writeData, _⟩ := curl_ok h there running
  rw [perform_eq there, found, ok_bind, writeData]
  by_cases none_ : transfer.chunks = []
  · rw [none_, respond, ok_bind]
    exact ⟨_, rfl⟩
  · obtain ⟨p, j, target, found, room⟩ := fits.resolve_left none_
    obtain ⟨j', resp, bytes, run, _⟩ := (respond_begun h there none_ found).1 room
    rw [begun] at run
    rw [target, run, ok_bind]
    exact ⟨_, rfl⟩

/-- A response of one byte. -/
def oneByte : Transfer := ⟨[.ofData [7] (by decide)], 0⟩

/-- Two instances of one thread, with a URL set through the second. -/
def twoInstances : List (Call Bool) :=
  [.new false (some 1) true, .new false (some 2) true, .set 2 (.url "b")]

theorem reachable_of_calls (calls : List (Call Thread))
    (run : calls.foldlM Engine.exec .start = .ok s) : (curlEngine Thread).Reachable s :=
  System.Reachable.compute (fun _ _ _ step => step) (.start rfl) run

omit [DecidableEq Thread] in
/-- What `core_get_data` copies. -/
def CurlInstance.received (s : CurlInstance) : List Byte := window s.buff 0 s.cursor.toNat

theorem Holds.received {s : CurlInstance} {bytes : List Byte} (h : Holds s bytes) :
    s.received = bytes := by
  rw [CurlInstance.received, h.cursor, Int.toNat_natCast, h.front]

/-- **Whose response it is.** After a request that brought a response, the instance it was made
through has that response exactly if it is the instance that was created last on its thread. -/
theorem response_own_iff (h : (curlEngine Thread).Reachable s) (there : s.instances a = some i)
    {transfer : Transfer} (some_ : transfer.body ≠ []) :
    (∃ s' options j, s.perform a transfer = .ok (s', options) ∧ s'.instances a = some j ∧
      j.resp.received = transfer.body) ↔
      s.ended i.thread = false ∧ latest s.created i.thread = some ⟨a, i.serial⟩ ∧
        transfer.body.length ≤ defaultBufferSize := by
  have hs := reachable_coherent h
  have chunks : transfer.chunks ≠ [] := by
    intro none_
    rw [Transfer.body, none_] at some_
    exact some_ rfl
  constructor
  · rintro ⟨s', options, j, ok, here, received⟩
    obtain ⟨running, _, ⟨none_, _⟩ | ⟨p, k, k', resp, bytes, target, found, room, _, rfl, _⟩⟩ :=
      perform_cases hs there ok
    · exact absurd none_ chunks
    · by_cases same : a = p.address
      · subst same
        obtain ⟨found, serial⟩ := living_eq_some.mp found
        cases there.symm.trans found
        rw [cursorAt, if_pos rfl] at room
        exact ⟨running, by rw [target, serial], by omega⟩
      · rw [setResp_of_ne _ _ _ same, begun, setResp_self] at here
        cases here
        exact absurd received.symm some_
  · rintro ⟨running, target, room⟩
    have fits : cursorAt a a i + transfer.body.length ≤ defaultBufferSize := by
      rw [cursorAt, if_pos rfl]
      omega
    obtain ⟨⟨s', options⟩, ok⟩ := perform_ok hs there transfer running
      (.inr ⟨_, i, target, living_eq_some.mpr ⟨there, rfl⟩, fits⟩)
    obtain ⟨_, _, ⟨none_, _⟩ | ⟨p, k, k', resp, bytes, target', _, _, _, rfl, cursor, holds⟩⟩ :=
      perform_cases hs there ok
    · exact absurd none_ chunks
    · cases target.symm.trans target'
      rw [cursorAt, if_pos rfl] at cursor
      have none_ : bytes = [] := List.length_eq_zero_iff.mp (by omega)
      refine ⟨_, options, _, ok, setResp_self .., ?_⟩
      rw [none_, List.nil_append] at holds
      exact holds.received

/-- A request through the first instance does not get its response. -/
theorem response_own_iff_second : ∃ s : Engine Bool, (curlEngine Bool).Reachable s ∧
    (∃ result, s.perform 1 oneByte = .ok result) ∧
    ¬ ∃ s' options j, s.perform 1 oneByte = .ok (s', options) ∧ s'.instances 1 = some j ∧
      j.resp.received = oneByte.body := by
  have run := reachable_of_calls twoInstances rfl
  refine ⟨_, run, ?_, ?_⟩
  · exact perform_ok (reachable_coherent run) (a := 1) (i := ⟨false, 0, .init⟩) rfl oneByte rfl
      (.inr ⟨⟨2, 1⟩, ⟨false, 1, .init⟩, rfl, rfl, by decide⟩)
  · rw [response_own_iff run (i := ⟨false, 0, .init⟩) rfl (by decide)]
    rintro ⟨_, target, _⟩
    cases target

end

end Libatp.App
