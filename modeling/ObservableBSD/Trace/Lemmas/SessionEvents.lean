import Mathlib.Algebra.Order.Group.Multiset
import Mathlib.Algebra.BigOperators.Group.List.Basic
import ObservableBSD.Trace.SessionProtocol

/-!
# The calls of a session

What the protocol says about the list of the calls of a session: which calls come in front of which, and that
what is acquired is given back.
-/

namespace ObservableBSD.Trace.Session

open Base Elf Decode

abbrev SysEvent := Event sys

/-! ## What is acquired and given back -/

def acquiredFds : SysEvent → Multiset Fd
  | ⟨.openDevice _, ans⟩ | ⟨.openOutput _, ans⟩ | ⟨.kqueue, ans⟩ => ofOption ans
  | _ => 0

def releasedFds : SysEvent → Multiset Fd
  | ⟨.close fd, _⟩ => {fd}
  | _ => 0

def acquiredMaps : SysEvent → Multiset (Nat × Nat)
  | ⟨.mmap size _, ans⟩ => ofOption (ans.map (·, size))
  | _ => 0

def releasedMaps : SysEvent → Multiset (Nat × Nat)
  | ⟨.munmap addr size, _⟩ => {(addr, size)}
  | _ => 0

def acquiredFiles : SysEvent → Multiset Nat
  | ⟨.fopen _, ans⟩ => ofOption ans
  | _ => 0

def releasedFiles : SysEvent → Multiset Nat
  | ⟨.fclose file, _⟩ => {file}
  | _ => 0

theorem erase_add_singleton {α : Type} [DecidableEq α] {s : Multiset α} {a : α} (h : a ∈ s) : s.erase a + {a} = s := by
  rw [add_comm, Multiset.singleton_add, Multiset.cons_erase h]

theorem next_fds {w : World} (e : SysEvent) (h : w.Allows e.call) :
    (w.next e.call e.answer).fds + releasedFds e = acquiredFds e + w.fds := by
  obtain ⟨c, ans⟩ := e
  cases c with
  | close fd => exact (erase_add_singleton h.1).trans (zero_add _).symm
  | openDevice path => exact add_zero _
  | openOutput path => exact add_zero _
  | kqueue => exact add_zero _
  | kill pid sig => cases sig <;> simp [World.next, releasedFds, acquiredFds]
  | signal sig caught => cases sig <;> simp [World.next, releasedFds, acquiredFds]
  | waitpid pid option => cases ans <;> simp [World.next, releasedFds, acquiredFds]
  | _ => exact (add_zero _).trans (zero_add _).symm

theorem next_maps {w : World} (e : SysEvent) (h : w.Allows e.call) :
    (w.next e.call e.answer).maps + releasedMaps e = acquiredMaps e + w.maps := by
  obtain ⟨c, ans⟩ := e
  cases c with
  | munmap addr size => exact (erase_add_singleton h).trans (zero_add _).symm
  | mmap size fd => exact add_zero _
  | kill pid sig => cases sig <;> simp [World.next, releasedMaps, acquiredMaps]
  | signal sig caught => cases sig <;> simp [World.next, releasedMaps, acquiredMaps]
  | waitpid pid option => cases ans <;> simp [World.next, releasedMaps, acquiredMaps]
  | _ => exact (add_zero _).trans (zero_add _).symm

theorem next_files {w : World} (e : SysEvent) (h : w.Allows e.call) :
    (w.next e.call e.answer).files + releasedFiles e = acquiredFiles e + w.files := by
  obtain ⟨c, ans⟩ := e
  cases c with
  | fclose file => exact (erase_add_singleton h).trans (zero_add _).symm
  | fopen path => exact add_zero _
  | kill pid sig => cases sig <;> simp [World.next, releasedFiles, acquiredFiles]
  | signal sig caught => cases sig <;> simp [World.next, releasedFiles, acquiredFiles]
  | waitpid pid option => cases ans <;> simp [World.next, releasedFiles, acquiredFiles]
  | _ => exact (add_zero _).trans (zero_add _).symm

/-- Over a whole run, what is given back and what is still held is what was acquired. -/
theorem Obeyed.balanced {α : Type} {held? : World → Multiset α} {released acquired : SysEvent → Multiset α}
    (hnext : ∀ (w : World) (e : SysEvent), w.Allows e.call →
      held? (w.next e.call e.answer) + released e = acquired e + held? w)
    {w : World} {events : List SysEvent} (h : held.Obeyed w events) :
    held? (held.after w events) + (events.map released).sum = (events.map acquired).sum + held? w := by
  induction events generalizing w with
  | nil => exact (add_zero _).trans (zero_add _).symm
  | cons e events ih =>
      have hstep := hnext w e h.1
      have hrest := ih h.2
      simp only [List.map_cons, List.sum_cons]
      calc held? (held.after w (e :: events)) + (released e + (events.map released).sum)
        _ = held? (held.after (w.next e.call e.answer) events) + (events.map released).sum + released e := by
            rw [add_comm (released e), add_assoc]
            rfl
        _ = (events.map acquired).sum + (held? (w.next e.call e.answer) + released e) := by rw [hrest, add_assoc]
        _ = acquired e + (events.map acquired).sum + held? w := by rw [hstep, add_left_comm, add_assoc]

/-! ## Start and stop -/

/-- A call that stops tracing. -/
def SysCall.stops : SysCall → Bool
  | .stop _ => true
  | _ => false

theorem next_running (w : World) (e : SysEvent) (h : (w.next e.call e.answer).phase.running = true) :
    (∃ fd, e = ⟨.start fd, true⟩) ∨ (w.phase.running = true ∧ e.call.stops = false) := by
  obtain ⟨c, ans⟩ := e
  cases c with
  | start fd =>
      have hor : (ans || w.phase.running) = true := h
      rcases Bool.or_eq_true_iff.mp hor with rfl | hrunning
      · exact .inl ⟨fd, rfl⟩
      · exact .inr ⟨hrunning, rfl⟩
  | stop fd => cases h
  | kill pid sig => exact .inr ⟨by cases sig <;> exact h, rfl⟩
  | signal sig caught => exact .inr ⟨by cases sig <;> exact h, rfl⟩
  | waitpid pid option => exact .inr ⟨by cases ans <;> exact h, rfl⟩
  | _ => exact .inr ⟨h, rfl⟩

/-- Where tracing runs behind some calls, it was started by one of them, and not stopped since. -/
theorem after_running {w : World} (hidle : w.phase.running = false) (events : List SysEvent)
    (h : (held.after w events).phase.running = true) :
    ∃ front mid fd, events = front ++ ⟨.start fd, true⟩ :: mid ∧ ∀ e ∈ mid, e.call.stops = false := by
  induction events using List.reverseRecOn with
  | nil => exact absurd h (by simp [Protocol.after, hidle])
  | append_singleton events e ih =>
      rw [Protocol.after_append] at h
      rcases next_running _ e h with ⟨fd, rfl⟩ | ⟨hrunning, hstops⟩
      · exact ⟨events, [], fd, rfl, by simp⟩
      · obtain ⟨front, mid, fd, rfl, hmid⟩ := ih hrunning
        refine ⟨front, mid ++ [e], fd, by simp, fun e' he' => ?_⟩
        rcases List.mem_append.mp he' with he' | he'
        · exact hmid e' he'
        · exact List.mem_singleton.mp he' ▸ hstops

theorem next_stays_running {w : World} (e : SysEvent) (hstops : e.call.stops = false) (h : w.phase.running = true) :
    (w.next e.call e.answer).phase.running = true := by
  obtain ⟨c, ans⟩ := e
  cases c with
  | start fd => exact Bool.or_eq_true_iff.mpr (.inr h)
  | stop fd => cases hstops
  | kill pid sig => cases sig <;> exact h
  | signal sig caught => cases sig <;> exact h
  | waitpid pid option => cases ans <;> exact h
  | _ => exact h

/-- Tracing that was started and not stopped since runs. -/
theorem after_stays_running {w : World} {events : List SysEvent} (hmid : ∀ e ∈ events, e.call.stops = false)
    (h : w.phase.running = true) : (held.after w events).phase.running = true := by
  induction events generalizing w with
  | nil => exact h
  | cons e events ih =>
      exact ih (fun e' he' => hmid e' (List.mem_cons_of_mem _ he')) (next_stays_running e (hmid e List.mem_cons_self) h)

theorem next_configured (w : World) (e : SysEvent) (h : (w.next e.call e.answer).phase.configured = true) :
    (∃ fd config pauseOnMmap, e = ⟨.setConfig fd config pauseOnMmap, true⟩) ∨ w.phase.configured = true := by
  obtain ⟨c, ans⟩ := e
  cases c with
  | setConfig fd config pauseOnMmap =>
      have hor : (ans || w.phase.configured) = true := h
      rcases Bool.or_eq_true_iff.mp hor with rfl | hconf
      · exact .inl ⟨fd, config, pauseOnMmap, rfl⟩
      · exact .inr hconf
  | kill pid sig => exact .inr (by cases sig <;> exact h)
  | signal sig caught => exact .inr (by cases sig <;> exact h)
  | waitpid pid option => exact .inr (by cases ans <;> exact h)
  | _ => exact .inr h

theorem after_configured {w : World} (hunconf : w.phase.configured = false) (events : List SysEvent)
    (h : (held.after w events).phase.configured = true) :
    ∃ fd config pauseOnMmap, (⟨.setConfig fd config pauseOnMmap, true⟩ : SysEvent) ∈ events := by
  induction events using List.reverseRecOn with
  | nil => exact absurd h (by simp [Protocol.after, hunconf])
  | append_singleton events e ih =>
      rw [Protocol.after_append] at h
      rcases next_configured _ e h with ⟨fd, config, pauseOnMmap, rfl⟩ | hconf
      · exact ⟨fd, config, pauseOnMmap, by simp⟩
      · obtain ⟨fd, config, pauseOnMmap, hmem⟩ := ih hconf
        exact ⟨fd, config, pauseOnMmap, List.mem_append_left _ hmem⟩

/-! ## The child -/

theorem mapChild_pid {ph : Phase} {pid : Int32} {f : Child → Child} (hf : ∀ child, (f child).pid = child.pid)
    {child : Child} (h : (ph.mapChild pid f).child = some child) :
    ∃ child', ph.child = some child' ∧ child'.pid = child.pid := by
  obtain ⟨child', hchild', rfl⟩ := Option.map_eq_some_iff.mp h
  refine ⟨child', hchild', ?_⟩
  split
  · exact (hf child').symm
  · rfl

/-- A child of the session was there before, or comes from a `fork`. -/
theorem next_child (w : World) (e : SysEvent) {child : Child} (h : (w.next e.call e.answer).phase.child = some child) :
    (∃ args noAslr, e = ⟨.fork args noAslr, some child.pid⟩) ∨
      ∃ child', w.phase.child = some child' ∧ child'.pid = child.pid := by
  obtain ⟨c, ans⟩ := e
  cases c with
  | fork args noAslr =>
      cases ans with
      | none => exact .inr ⟨child, h, rfl⟩
      | some pid =>
          cases h
          exact .inl ⟨args, noAslr, rfl⟩
  | kill pid sig =>
      cases sig with
      | kill => exact .inr (mapChild_pid (by intro; rfl) h)
      | cont => exact .inr (mapChild_pid (by intro; rfl) h)
      | _ => exact .inr ⟨child, h, rfl⟩
  | signal sig caught => exact .inr ⟨child, by cases sig <;> exact h, rfl⟩
  | waitpid pid option =>
      cases ans with
      | stopped => exact .inr (mapChild_pid (by intro; rfl) h)
      | exited status => exact .inr (mapChild_pid (by intro; rfl) h)
      | _ => exact .inr ⟨child, h, rfl⟩
  | _ => exact .inr ⟨child, h, rfl⟩

theorem after_child {w : World} (hnone : w.phase.child = none) (events : List SysEvent) {child : Child}
    (h : (held.after w events).phase.child = some child) :
    ∃ args noAslr, (⟨.fork args noAslr, some child.pid⟩ : SysEvent) ∈ events := by
  induction events using List.reverseRecOn generalizing child with
  | nil => exact absurd h (by simp [Protocol.after, hnone])
  | append_singleton events e ih =>
      rw [Protocol.after_append] at h
      rcases next_child _ e h with ⟨args, noAslr, rfl⟩ | ⟨child', hchild', hpid⟩
      · exact ⟨args, noAslr, by simp⟩
      · obtain ⟨args, noAslr, hmem⟩ := ih hchild'
        exact ⟨args, noAslr, List.mem_append_left _ (hpid ▸ hmem)⟩

end ObservableBSD.Trace.Session
