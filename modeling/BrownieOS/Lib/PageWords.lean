import BrownieOS.Lib.ByteMemory

/-!
# A memory as frames of words

Frame `f` is the 4096 bytes from `4096 * f` on and holds 1024 words. Words of different
frames, and different words of one frame, do not overlap. `SameFrame` is the frame
condition for one frame, down to its bytes.
-/
namespace BrownieOS.Lib.Mem

variable {m m' m'' : Mem} {f f' k k' n v : Nat}

def word (m : Mem) (f k : Nat) : Nat := m.get32 (4096 * f + 4 * k)

def setWord (m : Mem) (f k v : Nat) : Mem := m.set32 (4096 * f + 4 * k) v

/-- The frame holds the same bytes in both memories. -/
def SameFrame (m m' : Mem) (f : Nat) : Prop := ∀ x, x / 4096 = f → m' x = m x

theorem SameFrame.refl (m : Mem) (f : Nat) : SameFrame m m f := fun _ _ => rfl

theorem SameFrame.symm (h : SameFrame m m' f) : SameFrame m' m f := fun x hx => (h x hx).symm

theorem SameFrame.trans (h : SameFrame m m' f) (h' : SameFrame m' m'' f) : SameFrame m m'' f :=
  fun x hx => (h' x hx).trans (h x hx)

theorem word_lt (m : Mem) (f k : Nat) : m.word f k < 4294967296 := get32_lt _ _

theorem SameFrame.word (h : SameFrame m m' f) (hk : k < 1024) : m'.word f k = m.word f k :=
  get32_congr fun x h₁ h₂ => h x (by omega)

@[simp] theorem word_setWord_self (m : Mem) (f k : Nat) (hv : v < 4294967296) :
    (m.setWord f k v).word f k = v := get32_set32_self _ _ hv

theorem word_setWord_of_ne (m : Mem) (v : Nat) (hk : k < 1024) (hk' : k' < 1024)
    (h : f' ≠ f ∨ k' ≠ k) : (m.setWord f k v).word f' k' = m.word f' k' :=
  get32_set32_of_apart m v (by omega)

theorem word_setWord (m : Mem) (hk : k < 1024) (hk' : k' < 1024) (hv : v < 4294967296) :
    (m.setWord f k v).word f' k' = if f' = f ∧ k' = k then v else m.word f' k' := by
  split
  · rename_i h
    rw [h.1, h.2, word_setWord_self m f k hv]
  · rename_i h
    exact word_setWord_of_ne m v hk hk' (by omega)

theorem sameFrame_setWord (m : Mem) (v : Nat) (hk : k < 1024) (h : f' ≠ f) :
    SameFrame m (m.setWord f k v) f' :=
  fun x hx => set32_apply_of_off m v (by omega)

/-- One write keeps two memories alike. -/
theorem SameFrame.set32 (h : SameFrame m m' f) (a v : Nat) :
    SameFrame (m.set32 a v) (m'.set32 a v) f := by
  intro x hx
  simp only [Mem.set32]
  split
  · rfl
  · exact h x hx

theorem SameFrame.setWord (h : SameFrame m m' f) (g k v : Nat) :
    SameFrame (m.setWord g k v) (m'.setWord g k v) f := h.set32 _ v

/-- `n` whole frames of zeros. -/
def zeroFrames (m : Mem) (f n : Nat) : Mem := m.fill (4096 * f) (4096 * n) 0

theorem word_zeroFrames (m : Mem) (hk : k < 1024) (h : f ≤ f') (h' : f' < f + n) :
    (m.zeroFrames f n).word f' k = 0 :=
  get32_fill_zero m (by omega) (by omega)

theorem sameFrame_zeroFrames (m : Mem) (h : f' < f ∨ f + n ≤ f') :
    SameFrame m (m.zeroFrames f n) f' := by
  intro x hx
  unfold zeroFrames fill
  rw [if_neg (by omega)]

/-- A byte store stays inside its frame. -/
theorem sameFrame_update (m : Mem) {a : Nat} (c : Byte) (h : f ≠ a / 4096) :
    SameFrame m (Function.update m a c) f := by
  intro x hx
  exact Function.update_of_ne (fun hxa => h (by rw [← hx, hxa])) _ _

end BrownieOS.Lib.Mem
