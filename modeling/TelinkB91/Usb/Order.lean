import TelinkB91.Lib.Runs
import TelinkB91.Usb.Hid

/-!
# Usb — the order of the reports at the host

A report goes to an endpoint along one of two ways, at once or through the FIFO, and the code does
not look into the FIFO before it takes the first.  A report that finds its endpoint idle while an
older one for it is still in the FIFO goes out first.

* `Ordered.step`: where no report takes the direct way past a waiting one, one call keeps the
  reports written and waiting in the order of submission.
* `Pipe.drops_step`: a report is lost only to an overflow, and then it is the oldest in the FIFO.
* `written_in_order`: a run keeps the order, and the reports not written or waiting are those that
  the overflows dropped; where the FIFO never overflows no report is lost.
* `overtaken`: a run in which the host sees two key reports in the wrong order.
-/

namespace TelinkB91.Usb
open Ring Runs

/-- A submission by `usbkb_hid_report_normal` or `usbmouse_hid_report`, or a call of
`usb_hid_report_fifo_proc`.  `busy` is what the call finds of the endpoint it looks at. -/
inductive Op where
  | submit (ep : Ep) (r : Report) (busy : Bool)
  | proc (busy : Bool)

def Hid.step (s : Hid) : Op → Hid
  | .submit .keyboard r busy => (usbkbHidReportNormal s busy r.head r.data).1
  | .submit .mouse r busy => (usbmouseHidReport s busy r.head r.data).1
  | .proc busy => (usbHidReportFifoProc s busy).1

def Pipe.step (p : Pipe) : Op → Pipe
  | .submit ep r busy => p.submit ep busy r
  | .proc busy => p.proc busy

/-- The submissions have the layout of their endpoint. -/
def Op.Fits : Op → Prop
  | .submit ep r _ => r.Fits ep
  | .proc _ => True

instance (op : Op) : Decidable op.Fits := by
  cases op <;> unfold Op.Fits <;> infer_instance

/-- The report an operation submits to the endpoint `ep`. -/
def Op.report (ep : Ep) : Op → Option Report
  | .submit ep' r _ => if ep' = ep then some r else none
  | .proc _ => none

/-- The reports submitted to the endpoint `ep`, in order. -/
def submitted (ep : Ep) (ops : List Op) : List Report := ops.filterMap (Op.report ep)

/-- A report that finds its endpoint idle finds none for it in the FIFO. -/
def Direct (s : Hid) : Op → Prop
  | .submit ep _ busy => busy = false → s.pipe.waiting ep = []
  | .proc _ => True

/-- A report that finds its endpoint busy finds a free slot. -/
def Spare (s : Hid) : Op → Prop
  | .submit _ _ busy => busy = true → s.pipe.queue.length < usbFifoNum
  | .proc _ => True

instance (s : Hid) (op : Op) : Decidable (Direct s op) := by
  cases op <;> unfold Direct <;> infer_instance

/-- What an operation drops: the oldest entry of a full FIFO. -/
def Pipe.drops (p : Pipe) : Op → List (Ep × Report)
  | .submit _ _ true => if p.queue.length < usbFifoNum then [] else p.queue.take 1
  | .submit _ _ false => []
  | .proc _ => []

/-- The reports for the endpoint `ep` that a run drops. -/
def dropped (ep : Ep) : Hid → List Op → List Report
  | _, [] => []
  | s, op :: ops =>
      Pipe.waiting { s.pipe with queue := s.pipe.drops op } ep ++ dropped ep (s.step op) ops

/-! ### The two ways -/

section ways

variable {p : Pipe} {ep ep' : Ep} {r : Report}

theorem written_send : (p.send ep r).written ep' =
    p.written ep' ++ if ep = ep' then [r] else [] := by
  by_cases h : ep = ep'
  · subst h
    simp only [Pipe.send, Function.update_self, if_pos]
  · simp only [Pipe.send, Function.update_of_ne (Ne.symm h), if_neg h, List.append_nil]

theorem waiting_put : (p.put ep r).waiting ep' =
    (if p.queue.length < usbFifoNum then p.waiting ep'
      else Pipe.waiting { p with queue := p.queue.tail } ep') ++ if ep = ep' then [r] else [] := by
  by_cases h : ep = ep'
  · rw [Pipe.put, Pipe.waiting, List.filterMap_append]
    split <;> simp [h, Pipe.waiting]
  · rw [Pipe.put, Pipe.waiting, List.filterMap_append]
    split <;> simp [h, Pipe.waiting]

theorem waiting_tail : (Pipe.waiting { p with queue := p.queue.tail } ep').Sublist
    (p.waiting ep') :=
  (List.tail_sublist p.queue).filterMap _

theorem waiting_take_one : Pipe.waiting { p with queue := p.queue.take 1 } ep' ++
    Pipe.waiting { p with queue := p.queue.tail } ep' = p.waiting ep' := by
  rw [Pipe.waiting, Pipe.waiting, ← List.filterMap_append, ← List.drop_one, List.take_append_drop]
  rfl

theorem waiting_cons {queue : List (Ep × Report)} (h : p.queue = (ep, r) :: queue) :
    p.waiting ep' =
      (if ep = ep' then [r] else []) ++ Pipe.waiting { p with queue := queue } ep' := by
  rw [Pipe.waiting, h, List.filterMap_cons]
  by_cases heq : ep = ep'
  · simp [heq, Pipe.waiting]
  · simp [heq, Pipe.waiting]

theorem report_submit (busy : Bool) : (Op.submit ep r busy).report ep' =
    if ep = ep' then some r else none := rfl

end ways

/-! ### Runs -/

/-- The reports written and waiting are among those submitted, in the same order. -/
def Ordered (p : Pipe) (sub : Ep → List Report) : Prop :=
  ∀ ep, (p.written ep ++ p.waiting ep).Sublist (sub ep)

/-- The reports written and waiting are those submitted. -/
def Complete (p : Pipe) (sub : Ep → List Report) : Prop :=
  ∀ ep, p.written ep ++ p.waiting ep = sub ep

/-- The submissions after one more operation. -/
def after (sub : Ep → List Report) (op : Op) (ep : Ep) : List Report :=
  sub ep ++ (op.report ep).toList

section steps

variable {p : Pipe} {sub : Ep → List Report}

theorem after_submit {ep ep' : Ep} {r : Report} {busy : Bool} :
    after sub (.submit ep r busy) ep' = sub ep' ++ if ep = ep' then [r] else [] := by
  rw [after, report_submit]
  split <;> rfl

theorem after_proc {busy : Bool} : after sub (.proc busy) = sub := by
  funext ep
  exact List.append_nil _

/-- A report written from the head of the queue moves from the waiting to the written ones. -/
theorem proc_moves (p : Pipe) (busy : Bool) (ep' : Ep) :
    (p.proc busy).written ep' ++ (p.proc busy).waiting ep' = p.written ep' ++ p.waiting ep' := by
  cases hq : p.queue with
  | nil =>
      have hproc : p.proc busy = p := by rw [Pipe.proc, hq]
      rw [hproc]
  | cons e queue =>
      obtain ⟨ep, r⟩ := e
      cases busy with
      | true =>
          have hproc : p.proc true = p := by rw [Pipe.proc, hq]; rfl
          rw [hproc]
      | false =>
          have hproc : p.proc false = { p.send ep r with queue := queue } := by
            rw [Pipe.proc, hq]
            rfl
          have hwritten : (p.proc false).written ep' = (p.send ep r).written ep' := by rw [hproc]
          have hwaiting : (p.proc false).waiting ep' =
            Pipe.waiting { p with queue := queue } ep' := by rw [hproc]; rfl
          rw [hwritten, written_send, hwaiting, waiting_cons hq, List.append_assoc]

/-- A report that takes the direct way when none waits for its endpoint. -/
theorem send_last {ep : Ep} {r : Report} (h : p.waiting ep = []) (ep' : Ep) :
    (p.send ep r).written ep' ++ (p.send ep r).waiting ep' =
      p.written ep' ++ p.waiting ep' ++ if ep = ep' then [r] else [] := by
  have hwaiting : (p.send ep r).waiting ep' = p.waiting ep' := rfl
  rw [written_send, hwaiting]
  by_cases heq : ep = ep'
  · subst heq
    rw [h, List.append_nil, List.append_nil]
  · rw [if_neg heq, List.append_nil, List.append_nil]

/-- **Nothing else is lost.**  An operation writes, keeps or drops each report. -/
theorem Pipe.drops_step (p : Pipe) (op : Op) (ep' : Ep) :
    ((p.step op).written ep' ++ (p.step op).waiting ep' ++
        Pipe.waiting { p with queue := p.drops op } ep').Perm
      (p.written ep' ++ p.waiting ep' ++ (op.report ep').toList) := by
  cases op with
  | submit ep r busy =>
      have hreport : ((Op.submit ep r busy).report ep').toList = if ep = ep' then [r] else [] := by
        rw [report_submit]
        split <;> rfl
      rw [hreport]
      cases busy with
      | true =>
          have hwritten : (p.step (.submit ep r true)).written ep' = p.written ep' := rfl
          have hwaiting : (p.step (.submit ep r true)).waiting ep' = _ := waiting_put
          rw [hwritten, hwaiting, Pipe.drops, List.append_assoc, List.append_assoc,
            List.append_assoc]
          refine List.Perm.append_left _ ?_
          split
          · rw [show Pipe.waiting { p with queue := [] } ep' = [] from rfl, List.append_nil]
          · rw [← waiting_take_one (p := p), List.append_assoc, ← List.append_assoc]
            exact List.perm_append_comm
      | false =>
          have hwritten : (p.step (.submit ep r false)).written ep' = _ := written_send
          have hwaiting : (p.step (.submit ep r false)).waiting ep' = p.waiting ep' := rfl
          have hdrops :
            Pipe.waiting { p with queue := p.drops (.submit ep r false) } ep' = [] := rfl
          rw [hwritten, hwaiting, hdrops, List.append_nil, List.append_assoc, List.append_assoc]
          exact List.Perm.append_left _ List.perm_append_comm
  | proc busy =>
      rw [show p.step (.proc busy) = p.proc busy from rfl, proc_moves]
      exact .refl _

/-- **One operation.** -/
theorem Ordered.step (h : Ordered p sub) {op : Op}
    (hdirect : ∀ ep r, op = .submit ep r false → p.waiting ep = []) :
    Ordered (p.step op) (after sub op) := by
  intro ep'
  cases op with
  | submit ep r busy =>
      rw [after_submit]
      cases busy with
      | true =>
          have hwritten : (p.step (.submit ep r true)).written ep' = p.written ep' := rfl
          have hwaiting : (p.step (.submit ep r true)).waiting ep' = _ := waiting_put
          rw [hwritten, hwaiting, ← List.append_assoc]
          -- the oldest one is lost where the FIFO is full
          refine List.Sublist.append ?_ (List.Sublist.refl _)
          split
          · exact h ep'
          · exact ((List.Sublist.refl _).append waiting_tail).trans (h ep')
      | false =>
          have hlast := send_last (r := r) (hdirect ep r rfl) ep'
          rw [show p.step (.submit ep r false) = p.send ep r from rfl, hlast]
          exact (h ep').append (List.Sublist.refl _)
  | proc busy =>
      rw [after_proc, show p.step (.proc busy) = p.proc busy from rfl, proc_moves]
      exact h ep'

theorem Complete.step (h : Complete p sub) {op : Op}
    (hdirect : ∀ ep r, op = .submit ep r false → p.waiting ep = [])
    (hspare : ∀ ep r, op = .submit ep r true → p.queue.length < usbFifoNum) :
    Complete (p.step op) (after sub op) := by
  intro ep'
  cases op with
  | submit ep r busy =>
      rw [after_submit, ← h ep']
      cases busy with
      | true =>
          have hwritten : (p.step (.submit ep r true)).written ep' = p.written ep' := rfl
          have hwaiting : (p.step (.submit ep r true)).waiting ep' = _ := waiting_put
          rw [hwritten, hwaiting, if_pos (hspare ep r rfl), List.append_assoc]
      | false => exact send_last (hdirect ep r rfl) ep'
  | proc busy =>
      rw [after_proc, ← h ep']
      exact proc_moves p busy ep'

end steps

/-- On the FIFO the code does what the queue says. -/
theorem step_pipe {s : Hid} (h : s.Valid) {op : Op} (hop : op.Fits) :
    (s.step op).Valid ∧ (s.step op).pipe = s.pipe.step op := by
  cases op with
  | submit ep r busy =>
      have hstep : s.step (.submit ep r busy) = (submit ep s busy r).1 := by cases ep <;> rfl
      rw [hstep]
      exact submit_pipe h hop busy
  | proc busy => exact proc_pipe h busy

theorem direct_submit {s : Hid} {op : Op} (h : Direct s op) (ep : Ep) (r : Report)
    (heq : op = .submit ep r false) : s.pipe.waiting ep = [] := by
  subst heq
  exact h rfl

theorem spare_submit {s : Hid} {op : Op} (h : Spare s op) (ep : Ep) (r : Report)
    (heq : op = .submit ep r true) : s.pipe.queue.length < usbFifoNum := by
  subst heq
  exact h rfl

theorem submitted_cons (ep : Ep) (op : Op) (ops : List Op) :
    submitted ep (op :: ops) = (op.report ep).toList ++ submitted ep ops := by
  rw [submitted, List.filterMap_cons]
  cases op.report ep with
  | none => rfl
  | some r => rfl

theorem after_run (sub : Ep → List Report) (op : Op) (ops : List Op) :
    (fun ep => sub ep ++ submitted ep (op :: ops)) =
      fun ep => after sub op ep ++ submitted ep ops := by
  funext ep
  rw [submitted_cons, after, List.append_assoc]

/-- What every guarded operation keeps between the queue and the submissions, a run keeps. -/
theorem run_keeps {J : Pipe → (Ep → List Report) → Prop} {P : Hid → Op → Prop}
    (hstep : ∀ s sub op, J s.pipe sub → P s op → J (s.pipe.step op) (after sub op)) {s : Hid}
    (h : s.Valid) {sub : Ep → List Report} (hsub : J s.pipe sub) {ops : List Op}
    (hfits : ∀ op ∈ ops, op.Fits) (hops : Along Hid.step P s ops) :
    J (runFrom Hid.step s ops).pipe fun ep => sub ep ++ submitted ep ops := by
  induction ops generalizing s sub with
  | nil =>
      have hnil : (fun ep => sub ep ++ submitted ep []) = sub := funext fun ep => List.append_nil _
      rw [hnil]
      exact hsub
  | cons op ops ih =>
      obtain ⟨hop, hfits⟩ := List.forall_mem_cons.mp hfits
      obtain ⟨hvalid, hpipe⟩ := step_pipe h hop
      have hafter := hstep s sub op hsub hops.1
      rw [← hpipe] at hafter
      rw [after_run]
      exact ih hvalid hafter hfits hops.2

/-- A run writes, keeps or drops each report. -/
theorem dropped_run {s : Hid} (h : s.Valid) {ops : List Op} (hfits : ∀ op ∈ ops, op.Fits)
    (ep : Ep) :
    ((runFrom Hid.step s ops).pipe.written ep ++ (runFrom Hid.step s ops).pipe.waiting ep ++
        dropped ep s ops).Perm
      (s.pipe.written ep ++ s.pipe.waiting ep ++ submitted ep ops) := by
  induction ops generalizing s with
  | nil => exact .refl _
  | cons op ops ih =>
      obtain ⟨hop, hfits⟩ := List.forall_mem_cons.mp hfits
      obtain ⟨hvalid, hpipe⟩ := step_pipe h hop
      have hrest := ih hvalid hfits
      have hone := s.pipe.drops_step op ep
      rw [← hpipe] at hone
      rw [submitted_cons, dropped, runFrom_cons, ← List.append_assoc _ _ (submitted ep ops)]
      -- what the first operation drops goes behind the rest, and back before the submissions
      refine (List.perm_append_comm.append_left _).trans ?_
      rw [← List.append_assoc]
      refine (hrest.append_right _).trans ?_
      rw [List.append_assoc]
      refine (List.perm_append_comm.append_left _).trans ?_
      rw [← List.append_assoc]
      exact hone.append_right _

/-- **Order.**  In every run in which no report takes the direct way past a waiting one, the
reports written to an endpoint are a subsequence of those submitted for it.  The others are still
in the FIFO, or an overflow dropped them when they were the oldest there. -/
theorem written_in_order {ops : List Op} (hfits : ∀ op ∈ ops, op.Fits)
    (hdirect : Along Hid.step Direct Hid.init ops) (ep : Ep) :
    let s := runFrom Hid.step Hid.init ops
    (s.written ep).Sublist (submitted ep ops) ∧
      (s.written ep ++ s.pipe.waiting ep ++ dropped ep Hid.init ops).Perm (submitted ep ops) ∧
      (Along Hid.step Spare Hid.init ops →
        s.written ep ++ s.pipe.waiting ep = submitted ep ops) := by
  intro s
  have hnil : ∀ ep, Hid.init.pipe.written ep ++ Hid.init.pipe.waiting ep = [] := fun _ => rfl
  refine ⟨?_, dropped_run valid_init hfits ep, ?_⟩
  · have hordered : Ordered Hid.init.pipe fun _ => [] := fun ep => hnil ep ▸ .slnil
    have hrun := run_keeps (fun t sub op h hop => h.step (direct_submit hop)) valid_init hordered
      hfits hdirect ep
    exact (List.sublist_append_left _ _).trans hrun
  · intro hspare
    have hcomplete : Complete Hid.init.pipe fun _ => [] := hnil
    exact run_keeps (fun t sub op h hop => h.step (direct_submit hop.1) (spare_submit hop.2))
      valid_init hcomplete hfits (hdirect.and hspare) ep

/-- A key and its release go through the FIFO, with a media key between them; the mouse endpoint
is idle throughout. -/
theorem written_in_order_busy :
    let ops : List Op := [.submit .keyboard ⟨0#8, [4#8, 0#8, 0#8, 0#8, 0#8, 0#8]⟩ true,
      .submit .mouse ⟨3#8, [0xE9#8, 0#8, 0#8, 0#8]⟩ false,
      .submit .keyboard ⟨0#8, [0#8, 0#8, 0#8, 0#8, 0#8, 0#8]⟩ true, .proc false, .proc true]
    let s := runFrom Hid.step Hid.init ops
    (s.written .keyboard).Sublist (submitted .keyboard ops) ∧
      (s.written .keyboard ++ s.pipe.waiting .keyboard ++ dropped .keyboard Hid.init ops).Perm
        (submitted .keyboard ops) ∧
      (Along Hid.step Spare Hid.init ops →
        s.written .keyboard ++ s.pipe.waiting .keyboard = submitted .keyboard ops) := by
  intro ops s
  exact written_in_order (by decide +kernel) (by decide +kernel) .keyboard

/-- **Overtaken.**  The second report of three finds the endpoint busy and the third finds it idle
again, before the FIFO is looked at. -/
theorem overtaken :
    let x : Report := ⟨0#8, [4#8, 0#8, 0#8, 0#8, 0#8, 0#8]⟩
    let a : Report := ⟨0#8, [4#8, 5#8, 0#8, 0#8, 0#8, 0#8]⟩
    let b : Report := ⟨0#8, [5#8, 0#8, 0#8, 0#8, 0#8, 0#8]⟩
    let ops : List Op := [.submit .keyboard x false, .submit .keyboard a true,
      .submit .keyboard b false, .proc true, .proc false]
    let s := runFrom Hid.step Hid.init ops
    s.written .keyboard = [x, b, a] ∧ submitted .keyboard ops = [x, a, b] ∧
      ¬ (s.written .keyboard).Sublist (submitted .keyboard ops) := by
  decide +kernel

end TelinkB91.Usb
