import MiptMips.Lib.Outcomes
import MiptMips.Memory.AnyMemory
import MiptMips.Memory.StoreLoad

/-!
# Memories of different kinds

Two memories are alike when they have the same size and every address inside of them holds the
same byte, whatever kind of memory either is and whatever a read beyond its end gives. Accesses
that read inside of them give the same, and accesses that write go on or throw together.
-/

namespace MiptMips

open Machines FuncMemory LawfulFuncMemory

variable {M N : Type} [FuncMemory M] [LawfulFuncMemory M] [FuncMemory N] [LawfulFuncMemory N]

structure AlikeMemories (m : M) (n : N) : Prop where
  size_eq : size n = size m
  byteAt_eq (x : Addr) : x.toNat < size m → byteAt n x = byteAt m x

namespace AlikeMemories

variable {m : M} {n : N} {w : ℕ} {e : Endian} {addr : Addr}

theorem symm (h : AlikeMemories m n) : AlikeMemories n m :=
  ⟨h.size_eq.symm, fun x hx => (h.byteAt_eq x (h.size_eq ▸ hx)).symm⟩

theorem readBytes_eq (h : AlikeMemories m n) {len : ℕ} (hin : addr.toNat + len ≤ size m) :
    readBytes n addr len = readBytes m addr len := by
  rw [FuncMemory.readBytes_eq, FuncMemory.readBytes_eq]
  refine List.map_congr_left fun i hi => h.byteAt_eq _ ?_
  have hsize := size_le m
  have hlt := List.mem_range.1 hi
  rw [toNat_offset (by omega)]
  omega

theorem read_eq (h : AlikeMemories m n) (hin : addr.toNat + w / 8 ≤ size m) :
    FuncMemory.read n w e addr = FuncMemory.read m w e addr := by
  unfold FuncMemory.read
  rw [h.readBytes_eq hin]

/-- Copies of the same bytes go on or throw together. -/
theorem memcpy (h : AlikeMemories m n) (addr : Addr) (bytes : List Byte) :
    Outcomes AlikeMemories (memcpyHostToGuest m addr bytes) (memcpyHostToGuest n addr bytes) := by
  by_cases hin : addr.toNat + bytes.length ≤ size m
  · obtain ⟨m', hm, hs, -, hb⟩ := host_to_guest hin
    obtain ⟨n', hn, hs', -, hb'⟩ := host_to_guest (m := n) (h.size_eq ▸ hin)
    rw [hm, hn]
    refine .ok ⟨by rw [hs', hs, h.size_eq], fun x hx => ?_⟩
    rw [hs] at hx
    rw [hb, hb', canon_of_lt hx, canon_of_lt (h.size_eq ▸ hx), h.byteAt_eq x hx]
  · have hout : size m < addr.toNat + bytes.length := by omega
    obtain ⟨e, he⟩ := host_to_guest_error hout
    obtain ⟨e', he'⟩ := host_to_guest_error (m := n) (h.size_eq ▸ hout)
    rw [he, he']
    exact .error e e'

theorem write (h : AlikeMemories m n) (e : Endian) (value : BitVec w) (addr : Addr) :
    Outcomes AlikeMemories (FuncMemory.write m e value addr) (FuncMemory.write n e value addr) :=
  h.memcpy addr _

theorem writeInteger (h : AlikeMemories m n) (e : Endian) (value : BitVec w) (addr : Addr)
    (len : ℕ) : Outcomes AlikeMemories (FuncMemory.writeInteger m e value addr len)
      (FuncMemory.writeInteger n e value addr len) := by
  unfold FuncMemory.writeInteger
  split_ifs
  · exact h.write e _ addr
  · exact h.write e _ addr
  · exact h.write e _ addr
  · exact h.write e _ addr
  · exact h.write e _ addr
  · exact .ok h

/-- A masked write reads what it keeps; where that is beyond the end, so is what it writes. -/
theorem maskedWrite (h : AlikeMemories m n) (e : Endian) (value : BitVec w) (addr : Addr)
    (mask : BitVec w) : Outcomes AlikeMemories (FuncMemory.maskedWrite m e value addr mask)
      (FuncMemory.maskedWrite n e value addr mask) := by
  unfold FuncMemory.maskedWrite
  by_cases hin : addr.toNat + w / 8 ≤ size m
  · rw [h.read_eq hin]
    exact h.write e _ addr
  · unfold FuncMemory.write
    obtain ⟨e₁, he₁⟩ := @host_to_guest_error _ _ _ m addr
      (unpackArray e ((value &&& mask) ||| (FuncMemory.read m w e addr &&& ~~~mask)))
      (by rw [length_unpackArray]; omega)
    obtain ⟨e₂, he₂⟩ := @host_to_guest_error _ _ _ n addr
      (unpackArray e ((value &&& mask) ||| (FuncMemory.read n w e addr &&& ~~~mask)))
      (by rw [length_unpackArray, h.size_eq]; omega)
    rw [he₁, he₂]
    exact .error e₁ e₂

theorem store (h : AlikeMemories m n) (instr : FuncInstr w) :
    Outcomes AlikeMemories (FuncMemory.store m instr) (FuncMemory.store n instr) := by
  unfold FuncMemory.store
  dsimp only
  split_ifs
  · exact .error _ _
  · exact h.writeInteger _ _ _ _
  · exact h.maskedWrite _ _ _ _

/-- A load reads as many bytes as a register has. -/
def LoadsInside (m : M) (instr : FuncInstr w) : Prop :=
  instr.isLoad → instr.memAddr.toNat + w / 8 ≤ size m

instance (m : M) (instr : FuncInstr w) : Decidable (LoadsInside m instr) :=
  inferInstanceAs (Decidable (_ → _))

theorem loadStore {instr : FuncInstr w} (h : AlikeMemories m n) (hin : LoadsInside m instr) :
    Outcomes (fun a b => b.1 = a.1 ∧ AlikeMemories a.2 b.2) (FuncMemory.loadStore m instr)
      (FuncMemory.loadStore n instr) := by
  unfold FuncMemory.loadStore
  split_ifs with hl hs
  · refine .ok ⟨?_, h⟩
    show FuncMemory.load n instr = FuncMemory.load m instr
    unfold FuncMemory.load
    rw [h.read_eq (hin hl)]
  · exact (h.store instr).bind fun _ _ _ _ hr => .ok ⟨rfl, hr⟩
  · exact .ok ⟨rfl, h⟩

end AlikeMemories

section Load

/-- Pieces of data are copied into a memory one after another. -/
def FuncMemory.copyAll (m : M) (pieces : List (Addr × List Byte)) : Except SimException M :=
  pieces.foldlM (fun m piece => memcpyHostToGuest m piece.1 piece.2) m

theorem AlikeMemories.copyAll : ∀ (pieces : List (Addr × List Byte)) {m : M} {n : N},
    AlikeMemories m n → Outcomes AlikeMemories (FuncMemory.copyAll m pieces)
      (FuncMemory.copyAll n pieces)
  | [], _, _, h => .ok h
  | piece :: pieces, _, _, h =>
    (h.memcpy piece.1 piece.2).bind fun _ _ _ _ h' => copyAll pieces h'

/-- New memories of one size are alike. -/
theorem AnyMemory.IsFresh.alike {m n : AnyMemory} (hm : m.IsFresh) (hn : n.IsFresh)
    (hsize : size n = size m) : AlikeMemories m n :=
  ⟨hsize, fun x hx => by rw [hm.byteAt_eq hx, hn.byteAt_eq (hsize ▸ hx)]⟩

end Load

end MiptMips
