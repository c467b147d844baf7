import BrownieOS.Core.Madt
import BrownieOS.Lib.Ring

/-!
# What `parse_madt` enumerates

Over a table of complete records the walk takes them one by one, and its tables are filled
through 8-bit counters: with at most 255 overrides every one of them is there. The local
APICs are all stored, whether their enabled flag is set or not.
-/
namespace BrownieOS.Core

open BrownieOS.Lib BrownieOS.Lib.Word32

/-- A complete record: its type, and what follows the type and the length. -/
structure Record where
  type : Byte
  body : List Byte
  complete : recordSize type = some (body.length + 2)

namespace Record

variable (r : Record)

/-- The record as it lies in the table. -/
def bytes : List Byte := r.type :: BitVec.ofNat 8 (r.body.length + 2) :: r.body

/-- The fields of the record, by their offsets. -/
def fields : Mem := .ofBytes r.bytes

def apicId : Byte := r.fields 3

/-- Bit 0 of the flags of a local APIC. -/
def enabled : Bool := (r.fields.get32 4).testBit 0

def ioapicAddr : Nat := r.fields.get32 4

def iso : IoapicIso := loadIso r.fields 0

end Record

/-- The records of one type, in table order. -/
def ofType (type : Byte) (recs : List Record) : List Record := recs.filter fun r => r.type = type

abbrev lapics (recs : List Record) : List Record := ofType typeLapic recs

abbrev ioapics (recs : List Record) : List Record := ofType typeIoapic recs

abbrev overrides (recs : List Record) : List Record := ofType typeIoapicIso recs

def firstNonzero (addrs : List Nat) : Nat := (addrs.find? (· ≠ 0)).getD 0

/-- The table at `madt` is exactly these records, and lies below the end of memory. -/
structure MadtOf (m : Mem) (madt : Nat) (recs : List Record) : Prop where
  records : m.HoldsAt (madt + 44) (recs.flatMap Record.bytes)
  length : m.get32 (madt + 4) = 44 + (recs.flatMap Record.bytes).length
  inside : madt + m.get32 (madt + 4) < 4294967296

/-- The globals once the records `done` are behind the pointer. -/
structure Parsed (done : List Record) (s : MadtState) : Prop where
  numProcs : s.numProcs.toNat = (lapics done).length % 256
  lapicIds : RingHolds 256 madtStart.lapicIds ((lapics done).map Record.apicId) s.lapicIds
  numIsoEntries : s.numIsoEntries.toNat = (overrides done).length % 256
  isoEntries : RingHolds 256 madtStart.isoEntries ((overrides done).map Record.iso) s.isoEntries
  ioapicAddr : s.ioapicAddr = firstNonzero ((ioapics done).map Record.ioapicAddr)

section Turn

variable {m : Mem} {madt ptr : Nat} {s s' : MadtState} {done recs : List Record} {r : Record}

theorem Record.length_bytes (r : Record) : r.bytes.length = r.body.length + 2 := rfl

theorem ofType_concat_self {type : Byte} (h : r.type = type) (done : List Record) :
    ofType type (done ++ [r]) = ofType type done ++ [r] := by
  simp [ofType, List.filter_append, h]

theorem ofType_concat_other {type : Byte} (h : r.type ≠ type) (done : List Record) :
    ofType type (done ++ [r]) = ofType type done := by
  simp [ofType, List.filter_append, h]

theorem firstNonzero_concat (addrs : List Nat) (a : Nat) :
    firstNonzero (addrs ++ [a]) = if firstNonzero addrs = 0 then a else firstNonzero addrs := by
  unfold firstNonzero
  rw [List.find?_append]
  cases hfound : addrs.find? (· ≠ 0) with
  | none =>
    by_cases ha : a = 0
    · simp [ha]
    · simp [ha]
  | some b =>
    have hb : b ≠ 0 := by simpa using List.find?_some hfound
    simp [hb]

theorem recordSize_le {type : Byte} {size : Nat} (h : recordSize type = some size) : size ≤ 12 := by
  unfold recordSize at h
  split_ifs at h
  all_goals
    simp only [Option.some.injEq] at h
    omega

/-- The pointer of an arm goes on by the length byte. -/
theorem MadtState.advance_record (h : m.HoldsAt s.ptr r.bytes)
    (hroom : s.ptr + r.bytes.length < 4294967296) :
    (s.advance m).ptr = s.ptr + r.bytes.length := by
  have hlen : m (s.ptr + 1) = BitVec.ofNat 8 (r.body.length + 2) :=
    h 1 (by rw [r.length_bytes]; omega)
  have hsmall := recordSize_le r.complete
  rw [r.length_bytes] at hroom ⊢
  show wadd s.ptr (m (s.ptr + 1)).toNat = _
  rw [hlen, BitVec.toNat_ofNat, Nat.mod_eq_of_lt (by omega), wadd_of_lt (by omega)]

/-- A record of no type that is enumerated leaves the globals as they are. -/
theorem Parsed.other (hp : Parsed done s) (h₀ : r.type ≠ typeLapic) (h₁ : r.type ≠ typeIoapic)
    (h₂ : r.type ≠ typeIoapicIso) (fields : List (Nat × Nat)) :
    Parsed (done ++ [r]) (((s.read [(0, 1)]).read fields).advance m) := by
  have hl : lapics (done ++ [r]) = lapics done := ofType_concat_other h₀ done
  have hi : ioapics (done ++ [r]) = ioapics done := ofType_concat_other h₁ done
  have ho : overrides (done ++ [r]) = overrides done := ofType_concat_other h₂ done
  constructor
  · rw [hl]
    exact hp.numProcs
  · rw [hl]
    exact hp.lapicIds
  · rw [ho]
    exact hp.numIsoEntries
  · rw [ho]
    exact hp.isoEntries
  · rw [hi]
    exact hp.ioapicAddr

theorem Parsed.lapic (hp : Parsed done s) (h : m.HoldsAt s.ptr r.bytes) (hsize : r.bytes.length = 8)
    (htype : r.type = typeLapic) : Parsed (done ++ [r]) (lapicRecord m (s.read [(0, 1)])) := by
  have hl : lapics (done ++ [r]) = lapics done ++ [r] := ofType_concat_self htype done
  have hi : ioapics (done ++ [r]) = ioapics done :=
    ofType_concat_other (by rw [htype]; decide) done
  have ho : overrides (done ++ [r]) = overrides done :=
    ofType_concat_other (by rw [htype]; decide) done
  have hid : m (s.ptr + 3) = r.apicId := h.apply (by omega)
  constructor
  · have hcount := hp.numProcs
    rw [hl, List.length_append, List.length_singleton]
    show (s.numProcs + 1).toNat = _
    rw [BitVec.toNat_add, hcount]
    simp
  · have hstored := hp.lapicIds.store r.apicId
    rw [List.length_map, ← hp.numProcs, ← hid] at hstored
    rw [hl, List.map_append, List.map_singleton, ← hid]
    exact hstored
  · rw [ho]
    exact hp.numIsoEntries
  · rw [ho]
    exact hp.isoEntries
  · rw [hi]
    exact hp.ioapicAddr

theorem Parsed.ioapic (hp : Parsed done s) (h : m.HoldsAt s.ptr r.bytes) (hsize : r.bytes.length = 12)
    (htype : r.type = typeIoapic) : Parsed (done ++ [r]) (ioapicRecord m (s.read [(0, 1)])) := by
  have hl : lapics (done ++ [r]) = lapics done :=
    ofType_concat_other (by rw [htype]; decide) done
  have hi : ioapics (done ++ [r]) = ioapics done ++ [r] := ofType_concat_self htype done
  have ho : overrides (done ++ [r]) = overrides done :=
    ofType_concat_other (by rw [htype]; decide) done
  have haddr : m.get32 (s.ptr + 4) = r.ioapicAddr := h.get32 (by omega)
  have hsame : (ioapicRecord m (s.read [(0, 1)])).numProcs = s.numProcs ∧
      (ioapicRecord m (s.read [(0, 1)])).lapicIds = s.lapicIds ∧
      (ioapicRecord m (s.read [(0, 1)])).numIsoEntries = s.numIsoEntries ∧
      (ioapicRecord m (s.read [(0, 1)])).isoEntries = s.isoEntries ∧
      (ioapicRecord m (s.read [(0, 1)])).ioapicAddr =
        if s.ioapicAddr = 0 then m.get32 (s.ptr + 4) else s.ioapicAddr := by
    by_cases hz : s.ioapicAddr = 0
    · simp [ioapicRecord, MadtState.read, MadtState.advance, hz]
    · simp [ioapicRecord, MadtState.read, MadtState.advance, hz]
  obtain ⟨e₁, e₂, e₃, e₄, e₅⟩ := hsame
  constructor
  · rw [hl, e₁]
    exact hp.numProcs
  · rw [hl, e₂]
    exact hp.lapicIds
  · rw [ho, e₃]
    exact hp.numIsoEntries
  · rw [ho, e₄]
    exact hp.isoEntries
  · rw [hi, e₅, List.map_append, List.map_singleton, firstNonzero_concat, ← hp.ioapicAddr, haddr]

theorem Parsed.iso (hp : Parsed done s) (h : m.HoldsAt s.ptr r.bytes) (hsize : r.bytes.length = 10)
    (htype : r.type = typeIoapicIso) : Parsed (done ++ [r]) (ioapicIsoRecord m (s.read [(0, 1)])) := by
  have hl : lapics (done ++ [r]) = lapics done :=
    ofType_concat_other (by rw [htype]; decide) done
  have hi : ioapics (done ++ [r]) = ioapics done :=
    ofType_concat_other (by rw [htype]; decide) done
  have ho : overrides (done ++ [r]) = overrides done ++ [r] := ofType_concat_self htype done
  have hload : loadIso m s.ptr = r.iso := by
    have hbyte : ∀ k < 10, m (s.ptr + k) = r.fields k := fun k hk => h.apply (by omega)
    have hgsi : m.get32 (s.ptr + 4) = r.fields.get32 4 := h.get32 (by omega)
    simp only [loadIso, Record.iso, get16, Nat.zero_add, hgsi, Nat.add_assoc]
    rw [hbyte 1 (by decide), hbyte 2 (by decide), hbyte 3 (by decide), hbyte 8 (by decide),
      hbyte 9 (by decide), ← hbyte 0 (by decide), Nat.add_zero]
  constructor
  · rw [hl]
    exact hp.numProcs
  · rw [hl]
    exact hp.lapicIds
  · have hcount := hp.numIsoEntries
    rw [ho, List.length_append, List.length_singleton]
    show (s.numIsoEntries + 1).toNat = _
    rw [BitVec.toNat_add, hcount]
    simp
  · have hstored := hp.isoEntries.store r.iso
    rw [List.length_map, ← hp.numIsoEntries, ← hload] at hstored
    rw [ho, List.map_append, List.map_singleton, ← hload]
    exact hstored
  · rw [hi]
    exact hp.ioapicAddr

/-- One turn takes one record. -/
theorem Parsed.turn (hp : Parsed done s) (h : m.HoldsAt s.ptr r.bytes)
    (hroom : s.ptr + r.bytes.length < 4294967296) :
    Parsed (done ++ [r]) (madtRecord m s) ∧ (madtRecord m s).ptr = s.ptr + r.bytes.length := by
  have htype : m s.ptr = r.type := h 0 (by rw [r.length_bytes]; omega)
  have hsize := r.complete
  rw [← r.length_bytes] at hsize
  -- the type picks the arm, and with it the size of the record
  have hlength : ∀ n, recordSize r.type = some n → r.bytes.length = n := fun n hn =>
    Option.some.inj (hsize.symm.trans hn)
  constructor
  · unfold madtRecord
    dsimp only
    rw [show m (s.read [(0, 1)]).ptr = r.type from htype]
    split
    · rename_i h₀
      exact hp.lapic h (hlength 8 (by rw [h₀]; rfl)) h₀
    split
    · rename_i h₁
      exact hp.ioapic h (hlength 12 (by rw [h₁]; rfl)) h₁
    split
    · rename_i h₂
      exact hp.iso h (hlength 10 (by rw [h₂]; rfl)) h₂
    rename_i h₀ h₁ h₂
    split
    · exact hp.other h₀ h₁ h₂ _
    split
    · exact hp.other h₀ h₁ h₂ _
    split
    · exact hp.other h₀ h₁ h₂ _
    rename_i h₃ h₄ h₅
    rw [recordSize, if_neg h₀, if_neg h₁, if_neg h₂, if_neg h₃, if_neg h₄, if_neg h₅] at hsize
    cases hsize
  · cases madtRecord_result m s with
    | arm size harm hptr _ _ _ _ =>
      rw [hptr]
      exact MadtState.advance_record h hroom
    | noArm hnone _ _ =>
      rw [htype, hsize] at hnone
      cases hnone

/-- Turn by turn, all the records. -/
theorem Parsed.walk (hp : Parsed done s) (h : m.HoldsAt s.ptr (recs.flatMap Record.bytes))
    (hstop : wadd madt (m.get32 (madt + 4)) = s.ptr + (recs.flatMap Record.bytes).length)
    (hroom : s.ptr + (recs.flatMap Record.bytes).length < 4294967296) :
    ∃ s', madtLoop m madt (recs.length + 1) s = some s' ∧ Parsed (done ++ recs) s' := by
  induction recs generalizing done s with
  | nil =>
    refine ⟨s, ?_, by rwa [List.append_nil]⟩
    rw [List.flatMap_nil, List.length_nil] at hstop
    rw [madtLoop, if_neg (by omega)]
  | cons r recs ih =>
    rw [List.flatMap_cons] at h hstop hroom
    rw [List.length_append] at hstop hroom
    obtain ⟨hfirst, hrest⟩ := Mem.holdsAt_append.1 h
    have hsize := r.length_bytes
    obtain ⟨hturn, hptr⟩ := hp.turn hfirst (by omega)
    obtain ⟨s', hloop, hparsed⟩ := ih hturn (by rw [hptr]; exact hrest) (by omega) (by omega)
    refine ⟨s', ?_, by rwa [List.append_assoc] at hparsed⟩
    rw [List.length_cons, madtLoop, if_pos (by omega)]
    exact hloop

/-- However many turns are allowed, a walk that ends does so in the same state. -/
theorem madtLoop_unique {s₁ s₂ : MadtState} : ∀ n k (s : MadtState), madtLoop m madt n s = some s₁ →
    madtLoop m madt k s = some s₂ → s₁ = s₂ := by
  intro n
  induction n with
  | zero =>
    intro k s h
    cases h
  | succ n ih =>
    intro k s h h'
    cases k with
    | zero => cases h'
    | succ k =>
      rw [madtLoop] at h h'
      split at h
      · rename_i hmore
        rw [if_pos hmore] at h'
        exact ih k _ h h'
      · rename_i hdone
        rw [if_neg hdone] at h'
        exact Option.some.inj (h.symm.trans h')

end Turn

/-! ## The whole table -/

section Table

variable {m : Mem} {madt : Nat} {recs : List Record}

theorem MadtOf.parsed (h : MadtOf m madt recs) :
    ∃ s', parseMadt m madt (recs.length + 1) madtStart = some s' ∧ Parsed recs s' := by
  have hlen := h.length
  have hin := h.inside
  have hstart : wadd madt 44 = madt + 44 := wadd_of_lt (by omega)
  have hstop : wadd madt (m.get32 (madt + 4)) = madt + m.get32 (madt + 4) := wadd_of_lt hin
  have hbegin : Parsed [] { madtStart with
      lapicAddr := m.get32 (madt + 36)
      ptr := wadd madt 44
      reads := fieldAddrs madt [(4, 4), (36, 4)] } := ⟨rfl, .start, rfl, .start, rfl⟩
  apply hbegin.walk
  · rw [hstart]
    exact h.records
  · show wadd madt (m.get32 (madt + 4)) = wadd madt 44 + _
    omega
  · show wadd madt 44 + _ < 4294967296
    omega

theorem MadtOf.result (h : MadtOf m madt recs) {n : Nat} {s' : MadtState}
    (hparse : parseMadt m madt n madtStart = some s') : Parsed recs s' := by
  obtain ⟨s₁, hs₁, hparsed⟩ := h.parsed
  rwa [madtLoop_unique _ _ _ hparse hs₁]

/-- After the walk the overrides are in the table, in order, and the address is that of the
first IOAPIC with one. -/
theorem madt_overrides (h : MadtOf m madt recs) (hfew : (overrides recs).length ≤ 255) :
    ∃ n s', parseMadt m madt n madtStart = some s' ∧
      s'.numIsoEntries.toNat = (overrides recs).length ∧
      (List.range s'.numIsoEntries.toNat).map s'.isoEntries = (overrides recs).map Record.iso ∧
      s'.ioapicAddr = firstNonzero ((ioapics recs).map Record.ioapicAddr) := by
  obtain ⟨s', hparse, hp⟩ := h.parsed
  have hnum : s'.numIsoEntries.toNat = (overrides recs).length := by
    rw [hp.numIsoEntries, Nat.mod_eq_of_lt (by omega)]
  refine ⟨_, s', hparse, hnum, ?_, hp.ioapicAddr⟩
  have hcells := hp.isoEntries.since_wrap (by decide)
  rw [List.length_map, Nat.mod_eq_of_lt (by omega), Nat.div_eq_of_lt (by omega), Nat.mul_zero,
    List.drop_zero] at hcells
  rw [hnum]
  exact hcells

/-- A table at 0xC0400010, zero but for its length and its records. -/
def madtTable (recs : List Record) : Mem :=
  Mem.set32 (fun a => if 0xC040003C ≤ a then Mem.ofBytes (recs.flatMap Record.bytes) (a - 0xC040003C)
    else 0) 0xC0400014 (44 + (recs.flatMap Record.bytes).length)

theorem madtTable_of (recs : List Record) (hsmall : (recs.flatMap Record.bytes).length < 0x10000000) :
    MadtOf (madtTable recs) 0xC0400010 recs := by
  have hlen : (madtTable recs).get32 (0xC0400010 + 4) = 44 + (recs.flatMap Record.bytes).length :=
    Mem.get32_set32_self _ _ (by omega)
  refine ⟨fun k hk => ?_, hlen, by omega⟩
  unfold madtTable
  rw [Mem.set32_apply_of_off _ _ (by omega), if_pos (by omega), Mem.ofBytes]
  rw [show 0xC0400010 + 44 + k - 0xC040003C = k by omega, List.getElem?_eq_getElem hk, Option.getD_some]

/-- Two local APICs, an IOAPIC at 0xFEC00000, three overrides and an NMI line. -/
def sampleRecords : List Record :=
  [⟨0, [0, 0, 1, 0, 0, 0], rfl⟩, ⟨0, [1, 4, 1, 0, 0, 0], rfl⟩,
    ⟨1, [2, 0, 0, 0, 0xC0, 0xFE, 0, 0, 0, 0], rfl⟩, ⟨2, [0, 0, 2, 0, 0, 0, 0, 0], rfl⟩,
    ⟨2, [0, 9, 9, 0, 0, 0, 13, 0], rfl⟩, ⟨2, [0, 5, 16, 0, 0, 0, 15, 0], rfl⟩,
    ⟨4, [0xFF, 0, 0, 1], rfl⟩]

theorem madt_overrides_several : ∃ n s',
    parseMadt (madtTable sampleRecords) 0xC0400010 n madtStart = some s' ∧
      s'.numIsoEntries.toNat = 3 ∧
      (List.range s'.numIsoEntries.toNat).map s'.isoEntries =
        [⟨2, 10, 0, 0, 2, 0⟩, ⟨2, 10, 0, 9, 9, 13⟩, ⟨2, 10, 0, 5, 16, 15⟩] ∧
      s'.ioapicAddr = 0xFEC00000 := by
  obtain ⟨n, s', hparse, hnum, hentries, haddr⟩ :=
    madt_overrides (madtTable_of sampleRecords (by decide)) (by decide)
  have hisos : (overrides sampleRecords).map Record.iso =
      [⟨2, 10, 0, 0, 2, 0⟩, ⟨2, 10, 0, 9, 9, 13⟩, ⟨2, 10, 0, 5, 16, 15⟩] := by decide
  exact ⟨n, s', hparse, hnum, hentries.trans hisos, haddr⟩

/-- `get_num_procs`. -/
def getNumProcs (s : MadtState) : Nat := s.numProcs.toNat

/-- After the walk the processors counted are the enabled ones, and theirs are the ids. -/
def CountsEnabled (m : Mem) (madt : Nat) (recs : List Record) : Prop :=
  ∃ n s', parseMadt m madt n madtStart = some s' ∧
    getNumProcs s' = ((lapics recs).filter Record.enabled).length ∧
    (List.range (getNumProcs s')).map s'.lapicIds =
      ((lapics recs).filter Record.enabled).map Record.apicId

/-- The ids that are left below the counter are those of the records since it last wrapped. -/
theorem MadtOf.countsEnabled_iff (h : MadtOf m madt recs) : CountsEnabled m madt recs ↔
    ((lapics recs).map Record.apicId).drop (256 * ((lapics recs).length / 256)) =
      ((lapics recs).filter Record.enabled).map Record.apicId := by
  have hids : ∀ s', Parsed recs s' → (List.range (getNumProcs s')).map s'.lapicIds =
      ((lapics recs).map Record.apicId).drop (256 * ((lapics recs).length / 256)) := by
    intro s' hp
    have hcells := hp.lapicIds.since_wrap (by decide)
    rw [List.length_map] at hcells
    rw [getNumProcs, hp.numProcs]
    exact hcells
  constructor
  · rintro ⟨n, s', hparse, -, hlist⟩
    rw [← hids s' (h.result hparse), hlist]
  · intro hlist
    obtain ⟨s', hparse, hp⟩ := h.parsed
    have hsame := (hids s' hp).trans hlist
    refine ⟨_, s', hparse, ?_, hsame⟩
    have hcount := congrArg List.length hsame
    rwa [List.length_map, List.length_range, List.length_map] at hcount

/-- `get_num_procs` counts the enabled processors, and `lapic_ids` names them, exactly when
all are enabled and the counter has not wrapped, or when it has and what is left happens to
be right. -/
theorem num_procs_enabled_iff (h : MadtOf m madt recs) : CountsEnabled m madt recs ↔
    ((lapics recs).length ≤ 255 ∧ ∀ r ∈ lapics recs, r.enabled = true) ∨
      (256 ≤ (lapics recs).length ∧
        ((lapics recs).drop (256 * ((lapics recs).length / 256))).map Record.apicId =
          ((lapics recs).filter Record.enabled).map Record.apicId) := by
  rw [h.countsEnabled_iff, ← List.map_drop]
  by_cases hfew : (lapics recs).length ≤ 255
  · rw [Nat.div_eq_of_lt (by omega), Nat.mul_zero, List.drop_zero]
    constructor
    · intro hlist
      refine Or.inl ⟨hfew, ?_⟩
      have hcount := congrArg List.length hlist
      rw [List.length_map, List.length_map] at hcount
      exact List.length_filter_eq_length_iff.1 hcount.symm
    · rintro (⟨-, hall⟩ | ⟨hmany, -⟩)
      · rw [List.filter_eq_self.2 hall]
      · omega
  · constructor
    · exact fun hlist => Or.inr ⟨by omega, hlist⟩
    · rintro (⟨hless, -⟩ | ⟨-, hlist⟩)
      · omega
      · exact hlist

/-- Of the seven records two are local APICs, both enabled. -/
theorem num_procs_enabled_iff_several :
    CountsEnabled (madtTable sampleRecords) 0xC0400010 sampleRecords :=
  (num_procs_enabled_iff (madtTable_of sampleRecords (by decide))).2
    (Or.inl ⟨by decide, by decide⟩)

/-- A local APIC that is not enabled. -/
def disabledLapic : Record := ⟨0, [0, 0, 0, 0, 0, 0], rfl⟩

/-- It is counted all the same. -/
theorem num_procs_counts_disabled : MadtOf (madtTable [disabledLapic]) 0xC0400010 [disabledLapic] ∧
    ¬ CountsEnabled (madtTable [disabledLapic]) 0xC0400010 [disabledLapic] := by
  have h := madtTable_of [disabledLapic] (by decide)
  refine ⟨h, fun hcounts => ?_⟩
  have hids := h.countsEnabled_iff.1 hcounts
  exact absurd hids (by decide)

end Table

end BrownieOS.Core
