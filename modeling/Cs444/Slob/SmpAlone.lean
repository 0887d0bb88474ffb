import Cs444.Slob.Smp

open Function

namespace cs444.slob.smp

variable {T : Type} [DecidableEq T] {g : Geometry} {s : Machine T} {t : T} {a : Args} {b : Block}

/-- The live blocks and those of the callers once a call of `slob_alloc` has returned. -/
def Machine.allocated (s : Machine T) (a : Args) : Option Nat → List Block × List Block
  | none => (s.live, s.held)
  | some addr => (⟨addr, a.size, a.align⟩ :: s.live, ⟨addr, a.size, a.align⟩ :: s.held)

theorem slob_alloc_setup_set_slob_page {h : Heap} {size pfn : Nat} :
    g.slob_alloc_setup (h.set_slob_page pfn) size pfn = g.slob_alloc_setup h size pfn := by
  simp [Geometry.slob_alloc_setup, Heap.set_slob_page, Heap.setPage, Heap.set_slob_page_free]

/-- The steps of a thread alone, one at a time. -/
theorem run_go_succ (page : Option Nat) (n : Nat) :
    checked.run (step g) s (List.replicate (n + 1) (.go t page)) =
      s.advance g t page >>= fun s' => checked.run (step g) s' (List.replicate n (.go t page)) := rfl

theorem run_idle (hpc : s.pc t = .idle) (page : Option Nat) (n : Nat) :
    checked.run (step g) s (List.replicate n (.go t page)) = .ok s := by
  induction n with
  | zero => rfl
  | succ n ih =>
    rw [run_go_succ, Machine.advance, hpc]
    exact ih

theorem run_memset {zero : Bool} (hpc : s.pc t = .memset b zero) (page : Option Nat) (n : Nat) :
    checked.run (step g) s (List.replicate (n + 1) (.go t page)) = .ok { s with
      heap := g.slob_alloc_zero s.heap b.addr b.size zero, held := b :: s.held,
      pc := update s.pc t .idle } := by
  rw [run_go_succ, Machine.advance, hpc]
  exact run_idle (update_self ..) page n

theorem run_load_claimed {zero : Bool} (hpc : s.pc t = .load_claimed b zero) (page : Option Nat) (n : Nat) :
    checked.run (step g) s (List.replicate (n + 3) (.go t page)) = .ok { s with
      heap := g.slob_alloc_zero { s.heap with mem_claimed := toInt (s.heap.mem_claimed + g.PAGE_SIZE) }
        b.addr b.size zero
      held := b :: s.held, pc := update s.pc t .idle } := by
  rw [run_go_succ, Machine.advance, hpc]
  simp only [bind, Except.bind]
  rw [run_go_succ, Machine.advance]
  simp only [update_self, bind, Except.bind]
  rw [run_memset (b := b) (update_self ..)]
  simp only [update_idem]

/-- A thread in the allocator that nobody interrupts does what `slob_alloc` does. -/
theorem run_alone_slob_alloc (hpc : s.pc t = .idle) (page : Option Nat) :
    (checked.run (step g) s (.slob_alloc t a :: List.replicate 7 (.go t page))).map
        (fun s' => (s'.heap, s'.live, s'.held, s'.pc)) =
      (g.slob_alloc s.heap a.size a.align a.zero page).map fun r =>
        (r.2, (s.allocated a r.1).1, (s.allocated a r.1).2, s.pc) := by
  have hback : update s.pc t .idle = s.pc := by rw [← hpc, update_eq_self]
  have hcall : checked.run (step g) s (.slob_alloc t a :: List.replicate 7 (.go t page)) =
      checked.run (step g) { s with pc := update s.pc t (.search a) } (List.replicate 7 (.go t page)) := rfl
  rw [hcall, run_go_succ, Machine.advance, Geometry.slob_alloc]
  simp only [update_self]
  cases g.slob_alloc_walk s.heap a.size a.align (s.heap.list (sizeClass a.size)) with
  | error e => rfl
  | ok r =>
    obtain ⟨addr, h₁⟩ := r
    cases addr with
    | some addr =>
      simp only [bind, Except.bind, pure, Except.pure]
      rw [run_memset (update_self ..)]
      simp only [Except.map, update_idem, hback]
      rfl
    | none =>
      simp only [bind, Except.bind, pure, Except.pure]
      rw [run_go_succ, Machine.advance]
      simp only [update_self, update_idem]
      cases page with
      | none =>
        simp only [bind, Except.bind, hback]
        rw [run_idle (s := { s with heap := h₁ }) hpc]
        rfl
      | some pfn =>
        simp only [bind, Except.bind]
        rw [run_go_succ, Machine.advance]
        simp only [update_self, update_idem, bind, Except.bind]
        rw [run_go_succ, Machine.advance]
        simp only [update_self, update_idem, bind, Except.bind, slob_alloc_new_eq,
          Geometry.slob_alloc_fill, slob_alloc_setup_set_slob_page]
        cases g.slob_page_alloc (g.slob_alloc_setup h₁ a.size pfn) pfn a.size a.align with
        | error e => rfl
        | ok r =>
          obtain ⟨addr, h₂⟩ := r
          cases addr with
          | none => rfl
          | some addr =>
            simp only [pure, Except.pure]
            rw [run_load_claimed (update_self ..)]
            simp only [Except.map, update_idem, hback]
            rfl

/-- And what `slob_free` does. -/
theorem run_alone_slob_free (hpc : s.pc t = .idle) (page : Option Nat) (hnull : ¬ b.addr * g.SLOB_UNIT ≤ 16)
    (hsize : b.size ≠ 0) :
    (checked.run (step g) s (.slob_free t b :: List.replicate 6 (.go t page))).map
        (fun s' => (s'.heap, s'.live, s'.held, s'.pc)) =
      (g.slob_free s.heap b.addr b.size).map fun h =>
        (h, s.live.filter (fun a => a.addr ≠ b.addr), s.held.erase b, s.pc) := by
  have hback : update s.pc t .idle = s.pc := by rw [← hpc, update_eq_self]
  rw [checked.run, step, if_neg hnull, if_neg hsize, slob_free_eq hnull hsize]
  simp only [bind, Except.bind]
  rw [run_go_succ, Machine.advance]
  simp only [update_self, update_idem, bind, Except.bind]
  rw [run_go_succ, Machine.advance]
  simp only [update_self, update_idem, bind, Except.bind]
  rw [run_go_succ, Machine.advance]
  simp only [update_self, update_idem, bind, Except.bind]
  cases g.slob_free_locked { s.heap with mem_used := toInt (s.heap.mem_used - b.size) } b.addr b.size with
  | error e => rfl
  | ok r =>
    obtain ⟨pfn, h₁⟩ := r
    cases pfn with
    | none =>
      simp only [pure, Except.pure]
      rw [run_idle (update_self ..)]
      simp only [Except.map, hback]
    | some pfn =>
      simp only [pure, Except.pure]
      rw [run_go_succ, Machine.advance]
      simp only [update_self, update_idem, bind, Except.bind]
      rw [run_go_succ, Machine.advance]
      simp only [update_self, update_idem, bind, Except.bind]
      rw [run_go_succ, Machine.advance]
      simp only [update_self, update_idem, bind, Except.bind]
      rw [run_idle (update_self ..)]
      simp only [Except.map, hback]

/-- The steps of the threads are those of `slob_alloc` and `slob_free`: a thread that nobody interrupts returns
    with what the call, made at once, returns with. -/
theorem smp_uninterrupted (hpc : s.pc t = .idle) (page : Option Nat) :
    ((checked.run (step g) s (.slob_alloc t a :: List.replicate 7 (.go t page))).map
        (fun s' => (s'.heap, s'.live, s'.held, s'.pc)) =
      (g.slob_alloc s.heap a.size a.align a.zero page).map fun r =>
        (r.2, (s.allocated a r.1).1, (s.allocated a r.1).2, s.pc)) ∧
    (¬ b.addr * g.SLOB_UNIT ≤ 16 → b.size ≠ 0 →
      (checked.run (step g) s (.slob_free t b :: List.replicate 6 (.go t page))).map
          (fun s' => (s'.heap, s'.live, s'.held, s'.pc)) =
        (g.slob_free s.heap b.addr b.size).map fun h =>
          (h, s.live.filter (fun a => a.addr ≠ b.addr), s.held.erase b, s.pc)) :=
  ⟨run_alone_slob_alloc hpc page, run_alone_slob_free hpc page⟩

/-- Two threads before their first calls. -/
def boot : Machine Bool where
  heap := slob.boot.heap
  used _ := false
  live := []
  held := []
  pc _ := .idle

theorem smp_uninterrupted_sample : boot.pc false = .idle ∧
    (checked.run (step page4096) boot (.slob_alloc false ⟨8, 0, false⟩ :: List.replicate 7 (.go false (some 1)))).map
        (fun s' => (s'.heap, s'.live, s'.held, s'.pc)) =
      (page4096.slob_alloc boot.heap 8 0 false (some 1)).map fun r =>
        (r.2, (boot.allocated ⟨8, 0, false⟩ r.1).1, (boot.allocated ⟨8, 0, false⟩ r.1).2, boot.pc) :=
  ⟨rfl, (smp_uninterrupted (s := boot) (b := ⟨2048, 8, 0⟩) rfl (some 1)).1⟩

end cs444.slob.smp
