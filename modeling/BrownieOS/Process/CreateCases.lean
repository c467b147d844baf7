import BrownieOS.Process.Create

/-!
# The outcomes of `create_proc`

Once a slot and a block for the `proc_t` are found, the PID is taken and what follows is
work on memory and frames, which may fail, and then the last fields and the slot.
-/
namespace BrownieOS.Process

open BrownieOS.Lib BrownieOS.Lib.Word32 BrownieOS.Mm

/-! ## Pages stay mapped into what is used -/

section Grows

variable {s s' : Pmm} {dir va pa virt phys i n : Nat} {writable ok : Bool}

theorem procMapPage_grows (h0 : s.framemap.test 0 = true)
    (h : procMapPage dir va pa writable s = some (s', ok)) : s.Grows s' := by
  unfold procMapPage at h
  dsimp only at h
  split at h
  · obtain ⟨new, ha, h⟩ := Option.bind_eq_some_iff.1 h
    have hg := Pmm.allocPages_grows h0 ha
    split at h
    · cases h
      exact hg
    · cases h
      exact ⟨hg.used, hg.failed⟩
  split at h
  · cases h
    exact .refl s
  · cases h
    exact ⟨fun _ hf => hf, fun hf => hf⟩

theorem procMapLoop_grows (h0 : s.framemap.test 0 = true)
    (h : procMapLoop dir virt phys writable i n s = some (s', ok)) : s.Grows s' := by
  induction n generalizing i s with
  | zero =>
    cases h
    exact Pmm.Grows.refl _
  | succ n ih =>
    obtain ⟨⟨s₁, ok₁⟩, h₁, h₂⟩ := Option.bind_eq_some_iff.1 h
    have hg := procMapPage_grows h0 h₁
    split at h₂
    · cases h₂
      exact hg
    · exact hg.trans (ih (hg.used 0 h0) h₂)

end Grows

/-! ## The slot -/

section Slots

variable {k : Kernel} {i j n : Nat}

/-- The slot found is the first that is empty or unused. -/
theorem findEmptySlot_some (h : findEmptySlot k i n = some j) : i ≤ j ∧ j < i + n ∧
    (k.procList j = 0 ∨ (k.procs (k.procList j)).procstate = .unused) ∧
    ∀ l, i ≤ l → l < j → k.procList l ≠ 0 := by
  induction n generalizing i with
  | zero => cases h
  | succ n ih =>
    rw [findEmptySlot] at h
    split at h
    · rename_i hempty
      obtain rfl := Option.some.inj h
      exact ⟨Nat.le_refl _, by omega, hempty, fun l h₁ h₂ => by omega⟩
    · rename_i hfull
      obtain ⟨h₁, h₂, h₃, h₄⟩ := ih h
      refine ⟨by omega, by omega, h₃, fun l hl hlj => ?_⟩
      by_cases he : l = i
      · rw [he]
        exact fun hz => hfull (Or.inl hz)
      · exact h₄ l (by omega) hlj

end Slots

/-! ## The address space -/

/-- The frames and the memory of a new process up to its stack's frames: a directory, zeroed
and cloned from the kernel's, and then the stack. -/
def SpaceBuilt (image : KernelImage) (cr3 stackSize : Nat) (s : Pmm) (dirPhys stackPhys : Nat)
    (s' : Pmm) : Prop :=
  ∃ s₁ s₂, s.allocPages pmmFlagsDefault 2 = some (s₁, dirPhys) ∧
    clonePageDir image.dir cr3 image.dir (kp2v dirPhys)
      { s₁ with mem := s₁.mem.fill (kv2p (kp2v dirPhys)) 8192 0 } = some s₂ ∧
    s₂.allocPages pmmFlagsHighmem (stackPages stackSize) = some (s', stackPhys)

/-- The call of `proc_map_pages` for the stack. -/
def mapStack (dir stackSize stackPhys : Nat) (s : Pmm) : Option (Pmm × Bool) :=
  if stackPages stackSize = 0 then some (s, false)
  else procMapLoop dir (stackBottomAl stackSize) stackPhys true 0 (stackPages stackSize) s

/-- The fields of a `proc_t` that name its space. -/
def spaceProc (p : Proc) (dir stackSize : Nat) : Proc :=
  { p with pageDirectory := dir, cr3 := kv2p dir, stackTop := procStackTop, stackSize := stackSize }

/-- The fields set last. -/
def finishedProc (p : Proc) (entry kstackBase : Nat) : Proc :=
  { p with
    context := initialContext p.context entry
    procstate := .running
    kstackSize := 8192
    kstackBase := kstackBase
    kstackTop := wadd kstackBase 8192 }

/-- The state with the fields of the space set. -/
def Kernel.withSpace (k : Kernel) (proc dir stackSize : Nat) (s : Pmm) : Kernel :=
  { k with
    pmm := s
    procs := Function.update k.procs proc (spaceProc (k.procs proc) dir stackSize) }

/-- What follows the PID: no frames for the stack, no frame for one of its tables, or a
process. -/
inductive DirectoryOutcome (image : KernelImage) (k : Kernel) (proc procIdx entry stackSize : Nat) :
    Kernel → Nat → Prop
  | noStack {dirPhys : Nat} {s : Pmm} :
      SpaceBuilt image k.cr3 stackSize k.pmm dirPhys 0 s →
      DirectoryOutcome image k proc procIdx entry stackSize
        (k.withSpace proc (kp2v dirPhys) stackSize s) 0
  | noTable {dirPhys stackPhys : Nat} {s s' : Pmm} :
      SpaceBuilt image k.cr3 stackSize k.pmm dirPhys stackPhys s → stackPhys ≠ 0 →
      mapStack (kp2v dirPhys) stackSize stackPhys s = some (s', false) →
      DirectoryOutcome image k proc procIdx entry stackSize
        (k.withSpace proc (kp2v dirPhys) stackSize s') 0
  | done {dirPhys stackPhys : Nat} {s s' : Pmm} :
      SpaceBuilt image k.cr3 stackSize k.pmm dirPhys stackPhys s → stackPhys ≠ 0 →
      mapStack (kp2v dirPhys) stackSize stackPhys s = some (s', true) →
      DirectoryOutcome image k proc procIdx entry stackSize
        (createProcFinish (k.withSpace proc (kp2v dirPhys) stackSize s') proc procIdx entry).1 proc

section Outcomes

variable {image : KernelImage} {k k' : Kernel} {proc procIdx entry stackSize r : Nat}

theorem kp2v_dir_ne_zero {s s' : Pmm} {base : Nat} (h0 : s.framemap.test 0 = true)
    (h : s.allocPages pmmFlagsDefault 2 = some (s', base)) : kp2v base ≠ 0 := by
  have hlow : base < kernIdentityPhysEnd := by
    rcases allocPages_lowmem h0 (by decide) (Pmm.allocPages_eq_some h).1 with hlow | ⟨rfl, -⟩
    · omega
    · decide
  rw [kp2v_eq hlow]
  omega

/-- The stack, from the state `k₁` with its frames and the two fields that name it. -/
theorem createProcStack_cases (hp : proc ≠ 0) (hdir : (k.procs proc).pageDirectory ≠ 0)
    (h : createProcStack k proc procIdx entry stackSize = some (k', r)) :
    ∃ s stackPhys, k.pmm.allocPages pmmFlagsHighmem (stackPages stackSize) = some (s, stackPhys) ∧
      let k₁ := { k with pmm := s }.setProc proc
        { k.procs proc with stackTop := procStackTop, stackSize := stackSize }
      (stackPhys = 0 ∧ k' = k₁ ∧ r = 0 ∨
        stackPhys ≠ 0 ∧ ∃ s' ok k₂,
          mapStack (k.procs proc).pageDirectory stackSize stackPhys s = some (s', ok) ∧
          k₂ = { k₁ with pmm := s' } ∧
          (ok = false ∧ k' = k₂ ∧ r = 0 ∨
            ok = true ∧ (k', r) = createProcFinish k₂ proc procIdx entry)) := by
  unfold createProcStack at h
  obtain ⟨⟨s, stackPhys⟩, hstack, h₁⟩ := Option.bind_eq_some_iff.1 h
  refine ⟨s, stackPhys, hstack, ?_⟩
  dsimp only at h₁ ⊢
  split at h₁
  · rename_i hz
    obtain ⟨rfl, rfl⟩ := Prod.mk.inj (Option.some.inj h₁)
    exact Or.inl ⟨hz, rfl, rfl⟩
  · rename_i hz
    obtain ⟨⟨k₂, ok⟩, hmap, h₂⟩ := Option.bind_eq_some_iff.1 h₁
    refine Or.inr ⟨hz, ?_⟩
    unfold procMapPages at hmap
    rw [Kernel.setProc_procs_self] at hmap
    have hend : (ok = false ∧ k' = k₂ ∧ r = 0 ∨
        ok = true ∧ (k', r) = createProcFinish k₂ proc procIdx entry) := by
      cases ok with
      | false =>
        obtain ⟨rfl, rfl⟩ := Prod.mk.inj (Option.some.inj h₂)
        exact Or.inl ⟨rfl, rfl, rfl⟩
      | true => exact Or.inr ⟨rfl, (Option.some.inj h₂).symm⟩
    by_cases hpages : stackPages stackSize = 0
    · rw [if_pos (Or.inr (Or.inr hpages))] at hmap
      obtain ⟨rfl, rfl⟩ := Prod.mk.inj (Option.some.inj hmap)
      exact ⟨s, false, _, by rw [mapStack, if_pos hpages], rfl, hend⟩
    · rw [if_neg (not_or.2 ⟨hp, not_or.2 ⟨hdir, hpages⟩⟩)] at hmap
      obtain ⟨⟨s', ok'⟩, hloop, h₃⟩ := Option.bind_eq_some_iff.1 hmap
      obtain ⟨rfl, rfl⟩ := Prod.mk.inj (Option.some.inj h₃)
      exact ⟨s', ok', _, by rw [mapStack, if_neg hpages]; exact hloop, rfl, hend⟩

theorem createProcDirectory_cases (h0 : k.pmm.framemap.test 0 = true) (hp : proc ≠ 0)
    (h : createProcDirectory image k proc procIdx entry stackSize = some (k', r)) :
    DirectoryOutcome image k proc procIdx entry stackSize k' r := by
  unfold createProcDirectory at h
  obtain ⟨⟨s₁, dirPhys⟩, hdir, h₁⟩ := Option.bind_eq_some_iff.1 h
  have hne := kp2v_dir_ne_zero h0 hdir
  dsimp only at h₁
  rw [if_neg hne] at h₁
  obtain ⟨s₂, hclone, h₂⟩ := Option.bind_eq_some_iff.1 h₁
  rw [Kernel.setProc_procs_self] at h₂
  obtain ⟨s₃, stackPhys, hstack, hcases⟩ := createProcStack_cases hp
    (by rw [Kernel.setProc_procs_self]; exact hne) h₂
  rw [Kernel.setProc_procs_self] at hcases
  have hbuilt : SpaceBuilt image k.cr3 stackSize k.pmm dirPhys stackPhys s₃ :=
    ⟨s₁, s₂, hdir, hclone, hstack⟩
  have hspace : ∀ s k₁, k₁ = ({ k with
        pmm := s
        procs := Function.update (Function.update (Function.update k.procs proc
          { k.procs proc with pageDirectory := kp2v dirPhys }) proc
          { k.procs proc with pageDirectory := kp2v dirPhys, cr3 := kv2p (kp2v dirPhys) }) proc
          (spaceProc (k.procs proc) (kp2v dirPhys) stackSize) } : Kernel) →
      k₁ = k.withSpace proc (kp2v dirPhys) stackSize s := by
    rintro s _ rfl
    rw [Kernel.withSpace, Function.update_idem, Function.update_idem]
  rcases hcases with ⟨rfl, hk, rfl⟩ | ⟨hz, s', ok, k₂, hmap, hk₂, ⟨rfl, hk, rfl⟩ | ⟨rfl, hk⟩⟩
  · rw [hspace s₃ k' hk]
    exact .noStack hbuilt
  · rw [hk, hspace s' k₂ hk₂]
    exact .noTable hbuilt hz hmap
  · rw [hspace s' k₂ hk₂] at hk
    obtain ⟨rfl, rfl⟩ := Prod.mk.inj hk
    exact .done hbuilt hz hmap

/-- The state once the slot `i` is chosen: what an unused process leaves there is freed. -/
def Kernel.claimSlot (k : Kernel) (i : Nat) : Kernel :=
  if k.procList i ≠ 0 then k.kfree (k.procList i) else k

/-- The state once the block `proc` has its PID. -/
def Kernel.takePid (k : Kernel) (proc : Nat) (priority : ProcPriority) : Kernel :=
  { k with pidCtr := wadd k.pidCtr 1 }.setProc proc { k.procs proc with
    pid := k.pidCtr, procstate := .setup, priority := priority }

@[simp] theorem Kernel.takePid_pmm (k : Kernel) (proc : Nat) (priority : ProcPriority) :
    (k.takePid proc priority).pmm = k.pmm := rfl

@[simp] theorem Kernel.claimSlot_pmm (k : Kernel) (i : Nat) : (k.claimSlot i).pmm = k.pmm := by
  unfold Kernel.claimSlot
  split
  · rfl
  · rfl

/-- What a call of `create_proc` that returns has done: no slot, no block for the `proc_t`,
or a PID taken and what follows it. -/
inductive CreateOutcome (image : KernelImage) (k : Kernel) (entry stackSize : Nat)
    (priority : ProcPriority) : Kernel → Nat → Prop
  | noSlot : findEmptySlot k 1 (maxProc - 1) = none →
      CreateOutcome image k entry stackSize priority k 0
  | noBlock {i : Nat} : findEmptySlot k 1 (maxProc - 1) = some i →
      ((k.claimSlot i).kmalloc sizeofProc).2 = 0 →
      CreateOutcome image k entry stackSize priority ((k.claimSlot i).kmalloc sizeofProc).1 0
  | started {i proc r : Nat} {k₁ k' : Kernel} : findEmptySlot k 1 (maxProc - 1) = some i →
      (k.claimSlot i).kmalloc sizeofProc = (k₁, proc) → proc ≠ 0 →
      DirectoryOutcome image (k₁.takePid proc priority) proc i entry stackSize k' r →
      CreateOutcome image k entry stackSize priority k' r

theorem createProc_cases {execSize heapSize : Nat} {priority : ProcPriority}
    (h0 : k.pmm.framemap.test 0 = true)
    (h : createProc image k entry execSize stackSize heapSize priority = some (k', r)) :
    CreateOutcome image k entry stackSize priority k' r := by
  unfold createProc at h
  cases hslot : findEmptySlot k 1 (maxProc - 1) with
  | none =>
    rw [hslot] at h
    obtain ⟨rfl, rfl⟩ := Prod.mk.inj (Option.some.inj h)
    exact .noSlot hslot
  | some i =>
    rw [hslot] at h
    dsimp only at h
    rw [← Kernel.claimSlot] at h
    have hframes : ((k.claimSlot i).kmalloc sizeofProc).1.pmm.framemap.test 0 = true := by
      unfold Kernel.claimSlot
      split
      · exact h0
      · exact h0
    split at h
    · rename_i hz
      obtain ⟨rfl, rfl⟩ := Prod.mk.inj (Option.some.inj h)
      exact .noBlock hslot hz
    · rename_i hz
      exact .started hslot rfl hz (createProcDirectory_cases hframes hz h)

/-- With a slot and a block, the call is what follows the PID. -/
theorem createProc_started {execSize heapSize i : Nat} {priority : ProcPriority} {k₁ : Kernel}
    (hslot : findEmptySlot k 1 (maxProc - 1) = some i)
    (hblock : (k.claimSlot i).kmalloc sizeofProc = (k₁, proc)) (hne : proc ≠ 0) :
    createProc image k entry execSize stackSize heapSize priority =
      createProcDirectory image (k₁.takePid proc priority) proc i entry stackSize := by
  unfold createProc
  rw [hslot]
  dsimp only
  rw [← Kernel.claimSlot, hblock]
  dsimp only
  rw [if_neg hne]
  rfl

/-! ## What the outcomes leave alone -/

theorem SpaceBuilt.grows {s s' : Pmm} {cr3 dirPhys stackPhys : Nat}
    (h0 : s.framemap.test 0 = true)
    (h : SpaceBuilt image cr3 stackSize s dirPhys stackPhys s') : s.Grows s' := by
  obtain ⟨s₁, s₂, hdir, hclone, hstack⟩ := h
  have hg₁ := Pmm.allocPages_grows h0 hdir
  have hg₂ := clonePageDir_grows
    (s := { s₁ with mem := s₁.mem.fill (kv2p (kp2v dirPhys)) 8192 0 }) (hg₁.used 0 h0) hclone
  have h₂ : s₁.Grows s₂ := ⟨hg₂.used, hg₂.failed⟩
  exact hg₁.trans (h₂.trans (Pmm.allocPages_grows (h₂.used 0 (hg₁.used 0 h0)) hstack))

theorem mapStack_grows {s s' : Pmm} {dir stackPhys : Nat} {ok : Bool}
    (h0 : s.framemap.test 0 = true) (h : mapStack dir stackSize stackPhys s = some (s', ok)) :
    s.Grows s' := by
  unfold mapStack at h
  split at h
  · cases h
    exact .refl s
  · exact procMapLoop_grows h0 h

/-- After the PID is taken a call writes one record, and the table and the heap only at its
very end. -/
structure DirectoryFrame (k k' : Kernel) (proc : Nat) : Prop where
  used : ∀ f, k.pmm.framemap.test f = true → k'.pmm.framemap.test f = true
  others : ∀ q, q ≠ proc → k'.procs q = k.procs q
  pid : (k'.procs proc).pid = (k.procs proc).pid
  pidCtr : k'.pidCtr = k.pidCtr
  current : k'.currentProc = k.currentProc
  cr3 : k'.cr3 = k.cr3

/-- The last part, on the block, the table and the heap. -/
theorem createProcFinish_eq (k : Kernel) (proc procIdx entry : Nat) :
    (createProcFinish k proc procIdx entry).1 =
      { (k.kmalloc 8192).1 with
        procs := Function.update k.procs proc
          (finishedProc (k.procs proc) entry (Mm.kmalloc k.heap 8192).2)
        procList := Function.update k.procList procIdx proc } := by
  simp [createProcFinish, Kernel.setProc, Kernel.setSlot, Kernel.kmalloc, finishedProc]

theorem DirectoryOutcome.frame (h : DirectoryOutcome image k proc procIdx entry stackSize k' r)
    (h0 : k.pmm.framemap.test 0 = true) : DirectoryFrame k k' proc := by
  cases h with
  | noStack hbuilt =>
    have hg := hbuilt.grows h0
    exact ⟨hg.used, fun q hq => Function.update_of_ne hq _ _,
      by simp [Kernel.withSpace, spaceProc], rfl, rfl, rfl⟩
  | noTable hbuilt hz hmap =>
    have hg := hbuilt.grows h0
    have hg' := hg.trans (mapStack_grows (hg.used 0 h0) hmap)
    exact ⟨hg'.used, fun q hq => Function.update_of_ne hq _ _,
      by simp [Kernel.withSpace, spaceProc], rfl, rfl, rfl⟩
  | done hbuilt hz hmap =>
    have hg := hbuilt.grows h0
    have hg' := hg.trans (mapStack_grows (hg.used 0 h0) hmap)
    rw [createProcFinish_eq]
    refine ⟨hg'.used, fun q hq => ?_, ?_, rfl, rfl, rfl⟩
    · simp [Kernel.withSpace, Function.update_of_ne hq]
    · simp [Kernel.withSpace, spaceProc, finishedProc]

/-- Either the call has failed, with the table and the heap untouched, or the slot holds a
finished process. -/
theorem DirectoryOutcome.slot (h : DirectoryOutcome image k proc procIdx entry stackSize k' r)
    (h0 : k.pmm.framemap.test 0 = true) :
    r = 0 ∧ k'.procList = k.procList ∧ k'.heap = k.heap ∨
      r = proc ∧ k'.procList = Function.update k.procList procIdx proc ∧
        k'.heap = (Mm.kmalloc k.heap 8192).1 ∧ ∃ dir, dir ≠ 0 ∧ k'.procs proc =
          finishedProc (spaceProc (k.procs proc) dir stackSize) entry (Mm.kmalloc k.heap 8192).2 := by
  cases h with
  | noStack hbuilt => exact Or.inl ⟨rfl, rfl, rfl⟩
  | noTable hbuilt hz hmap => exact Or.inl ⟨rfl, rfl, rfl⟩
  | @done dirPhys stackPhys s s' hbuilt hz hmap =>
    obtain ⟨s₁, s₂, hdir, hclone, hstack⟩ := hbuilt
    rw [createProcFinish_eq]
    refine Or.inr ⟨rfl, rfl, rfl, kp2v dirPhys, kp2v_dir_ne_zero h0 hdir, ?_⟩
    simp [Kernel.withSpace]

end Outcomes

end BrownieOS.Process
