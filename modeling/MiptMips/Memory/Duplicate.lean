import Mathlib.Tactic.Ring
import MiptMips.Memory.AnyMemory

/-!
# The duplicate of a memory

All pages of all allocated sets are copied to the target, one after the other. A page that was never
touched is copied too: there are no bytes in it, but the target looks at its address all the same.
-/

namespace MiptMips

open Machines Throwing FuncMemory LawfulFuncMemory

section Copies

variable {T : Type} [FuncMemory T]

/-- Copies of pieces of memory, in order. -/
def copies (pieces : List (Addr × List Byte)) : Throwing SimException T PUnit :=
  pieces.forM fun (dst, src) => copyTo dst src

/-- The addresses of a piece. -/
def Covers (piece : Addr × List Byte) (x : Addr) : Prop :=
  piece.1.toNat ≤ x.toNat ∧ x.toNat < piece.1.toNat + piece.2.length

/-- A piece ends at a limit, or before it. -/
def FitsIn (limit : ℕ) (piece : Addr × List Byte) : Prop :=
  piece.1.toNat + piece.2.length ≤ limit

theorem run_copyTo (dst : Addr) (src : List Byte) (t : T) :
    (copyTo dst src : Throwing SimException T PUnit).run.run t
      = match memcpyHostToGuest t dst src with
        | .ok t' => (.ok ⟨⟩, t')
        | .error e => (.error e, t) := by
  have hrun : (copyTo dst src : Throwing SimException T PUnit).run.run t
      = ((match memcpyHostToGuest t dst src with
          | .ok target => set target
          | .error e => throw e : Throwing SimException T PUnit)).run.run t := rfl
  rw [hrun]
  rcases memcpyHostToGuest t dst src with e | t' <;> rfl

theorem run_copies_cons (piece : Addr × List Byte) (pieces : List (Addr × List Byte)) (t : T) :
    (copies (piece :: pieces) : Throwing SimException T PUnit).run.run t
      = match memcpyHostToGuest t piece.1 piece.2 with
        | .ok t' => (copies pieces : Throwing SimException T PUnit).run.run t'
        | .error e => (.error e, t) := by
  have hcons : (copies (piece :: pieces) : Throwing SimException T PUnit)
      = copyTo piece.1 piece.2 >>= fun _ => copies pieces := rfl
  rw [hcons, run_bind, run_copyTo]
  rcases memcpyHostToGuest t piece.1 piece.2 with e | t' <;> rfl

variable [LawfulFuncMemory T]

/-- Pieces of one contents leave this contents, where it was already or where one of them is. -/
theorem run_copies {f : Addr → Byte} {D : Addr → Prop} :
    ∀ (pieces : List (Addr × List Byte)) (t : T),
    (∀ piece ∈ pieces, FitsIn (size t) piece) →
    (∀ piece ∈ pieces, ∀ i < piece.2.length, piece.2.getD i 0#8 = f (piece.1.offset i)) →
    (∀ x, D x → canon t x = x) →
    (∀ x, D x → byteAt t x = f x ∨ ∃ piece ∈ pieces, Covers piece x) →
    ∃ t', (copies pieces : Throwing SimException T PUnit).run.run t = (.ok ⟨⟩, t')
      ∧ ∀ x, D x → byteAt t' x = f x
  | [], t, _, _, _, hstart => ⟨t, rfl, fun x hx => (hstart x hx).resolve_right (by simp)⟩
  | (dst, src) :: pieces, t, hfits, hpieces, hcanon, hstart => by
    have hhead : dst.toNat + src.length ≤ size t := hfits _ (.head _)
    obtain ⟨t₁, hcopy, hsize, hcanon₁, hbytes⟩ := host_to_guest hhead
    have hrest : ∀ x, D x → byteAt t₁ x = f x ∨ ∃ piece ∈ pieces, Covers piece x := by
      intro x hx
      rw [hbytes, hcanon x hx]
      split_ifs with hin
      · have hoffset : dst.offset (x.toNat - dst.toNat) = x := by
          have hlt := x.isLt
          exact BitVec.eq_of_toNat_eq (by rw [toNat_offset (by omega)]; omega)
        have hlt : x.toNat - dst.toNat < src.length := by omega
        exact .inl ((hpieces _ (.head _) _ hlt).trans (by rw [hoffset]))
      · rcases hstart x hx with hold | ⟨piece, hmem, hcover⟩
        · exact .inl hold
        · rcases List.mem_cons.1 hmem with rfl | hmem
          · exact absurd hcover hin
          · exact .inr ⟨piece, hmem, hcover⟩
    obtain ⟨t', hrun, hend⟩ := run_copies pieces t₁
      (fun piece hmem => hsize ▸ hfits piece (.tail _ hmem))
      (fun piece hmem => hpieces piece (.tail _ hmem))
      (fun x hx => hcanon₁ ▸ hcanon x hx) hrest
    exact ⟨t', by rw [run_copies_cons, hcopy]; exact hrun, hend⟩

/-- A piece that does not fit ends the copies. -/
theorem fits_of_run_copies : ∀ {pieces : List (Addr × List Byte)} {t t' : T},
    (copies pieces : Throwing SimException T PUnit).run.run t = (.ok ⟨⟩, t') →
    ∀ piece ∈ pieces, FitsIn (size t) piece
  | [], _, _, _, piece, hmem => by cases hmem
  | (dst, src) :: pieces, t, t', hrun, piece, hmem => by
    rw [run_copies_cons] at hrun
    by_cases hin : FitsIn (size t) (dst, src)
    · obtain ⟨t₁, hcopy, hsize, -, -⟩ := host_to_guest hin
      rw [hcopy] at hrun
      rcases List.mem_cons.1 hmem with rfl | hmem
      · exact hin
      · exact hsize ▸ fits_of_run_copies hrun piece hmem
    · obtain ⟨e, he⟩ := host_to_guest_error (Nat.lt_of_not_le hin)
      rw [he] at hrun
      cases hrun

end Copies

namespace HierarchiedMemory

section Model

/-- A memory with some contents: it was created, and bytes were copied to it. -/
inductive Reachable : HierarchiedMemory → Prop
  | create {addrBits pageBits offsetBits : BitVec 32} {m : HierarchiedMemory}
    (h : HierarchiedMemory.create addrBits pageBits offsetBits = .ok m) : Reachable m
  | copy {m m' : HierarchiedMemory} {dst : Addr} {src : List Byte} (hm : Reachable m)
    (h : m.memcpyHostToGuest dst src = .ok m') : Reachable m'

variable (m : HierarchiedMemory)

/-- The pages of the allocated sets, with their addresses. -/
def pieces : List (Addr × List Byte) :=
  m.memory.zipIdx.flatMap fun (pages, setIndex) =>
    pages.zipIdx.map fun (page, pageIndex) => (m.getAddr setIndex pageIndex 0, page)

end Model

section Pieces

variable {m : HierarchiedMemory}

theorem duplicateTo_eq {T : Type} [FuncMemory T] :
    (m.duplicateTo : Throwing SimException T PUnit) = copies m.pieces := by
  have hforM : ∀ {α β : Type} (f : β → Throwing SimException T PUnit) (g : α → List β)
      (xs : List α), forM (xs.flatMap g) f = forM xs fun x => forM (g x) f := by
    intro α β f g xs
    induction xs with
    | nil => rfl
    | cons x xs ih => rw [List.flatMap_cons, List.forM_append, ih, List.forM_cons]
  simp only [copies, pieces, duplicateTo, List.forM_eq_forM, hforM, List.forM_map]

theorem mem_pieces {piece : Addr × List Byte} : piece ∈ m.pieces ↔ ∃ setIndex pageIndex,
    setIndex < m.memory.length ∧ pageIndex < (m.memory.getD setIndex []).length
      ∧ piece = (m.getAddr setIndex pageIndex 0,
        (m.memory.getD setIndex []).getD pageIndex []) := by
  simp only [pieces, List.mem_flatMap, List.mem_map, Prod.exists, List.mk_mem_zipIdx_iff_getElem?,
    List.getElem?_eq_some_iff]
  constructor
  · rintro ⟨pages, setIndex, ⟨hset, rfl⟩, page, pageIndex, ⟨hpage, rfl⟩, rfl⟩
    refine ⟨setIndex, pageIndex, hset, ?_, ?_⟩ <;> simp [hset, hpage]
  · rintro ⟨setIndex, pageIndex, hset, hpage, rfl⟩
    have hpage' : pageIndex < m.memory[setIndex].length := by simpa [hset] using hpage
    exact ⟨_, setIndex, ⟨hset, rfl⟩, _, pageIndex, ⟨hpage', rfl⟩, by simp [hset, hpage']⟩

/-- No set of a memory with 64 address bits is ever allocated. -/
theorem Reachable.narrow (h : m.Reachable) : m.addrBits < 64 ∨ ∀ set ∈ m.memory, set = [] := by
  induction h with
  | create h => exact .inr (AnyMemory.memory_create h)
  | @copy m m' dst src hm hcopy ih =>
    by_cases hbits : m.addrBits < 64
    · have hin : dst.toNat + src.length ≤ m.size := by
        by_contra hout
        obtain ⟨e, he⟩ := memcpyHostToGuest_error (Nat.lt_of_not_le hout)
        rw [he] at hcopy
        cases hcopy
      rw [memcpyHostToGuest_ok hin] at hcopy
      cases hcopy
      rw [addrBits_copyFrom]
      exact .inl hbits
    · have hsize : m.size = 0 := by rw [size_eq, if_neg hbits]
      rcases src with _ | ⟨value, src⟩
      · have hsame : m' = m := by
          unfold memcpyHostToGuest at hcopy
          dsimp only at hcopy
          split_ifs at hcopy
          cases hcopy
          rfl
        rw [hsame]
        exact ih
      · have hout : m.size < dst.toNat + (value :: src).length := by
          rw [hsize, List.length_cons]
          omega
        obtain ⟨e, he⟩ := memcpyHostToGuest_error hout
        rw [he] at hcopy
        cases hcopy

/-- The number of the first byte of a page. -/
theorem toNat_getAddr (hbits : m.addrBits < 64) {setIndex pageIndex : ℕ}
    (hset : setIndex < 2 ^ m.setBits) (hpage : pageIndex < 2 ^ m.pageBits) :
    (m.getAddr setIndex pageIndex 0).toNat
      = 2 ^ m.offsetBits * (pageIndex + 2 ^ m.pageBits * setIndex) := by
  have haddr := m.addr_eq
  have hin : pageIndex <<< m.offsetBits < 2 ^ (m.pageBits + m.offsetBits) := by
    rw [Nat.shiftLeft_eq, Nat.pow_add]
    exact Nat.mul_lt_mul_of_pos_right hpage (Nat.two_pow_pos _)
  have hpages : 2 ^ (m.pageBits + m.offsetBits) ≤ 2 ^ 64 :=
    Nat.pow_le_pow_right (by decide) (by omega)
  have hsets : setIndex <<< (m.pageBits + m.offsetBits) < 2 ^ 64 := by
    rw [Nat.shiftLeft_eq]
    calc setIndex * 2 ^ (m.pageBits + m.offsetBits)
        < 2 ^ m.setBits * 2 ^ (m.pageBits + m.offsetBits) :=
          Nat.mul_lt_mul_of_pos_right hset (Nat.two_pow_pos _)
      _ = 2 ^ (m.setBits + (m.pageBits + m.offsetBits)) := (Nat.pow_add _ _ _).symm
      _ ≤ 2 ^ 64 := Nat.pow_le_pow_right (by decide) (by omega)
  have hsetLe : 2 ^ m.setBits ≤ 2 ^ 64 := Nat.pow_le_pow_right (by decide) (by omega)
  have hpageLe : 2 ^ m.pageBits ≤ 2 ^ 64 := Nat.pow_le_pow_right (by decide) (by omega)
  rw [getAddr, BitVec.toNat_or, BitVec.toNat_or, BitVec.toNat_shiftLeft, BitVec.toNat_shiftLeft,
    BitVec.toNat_ofNat, BitVec.toNat_ofNat, BitVec.toNat_ofNat, Nat.zero_mod, Nat.or_zero,
    Nat.mod_eq_of_lt (hset.trans_le hsetLe), Nat.mod_eq_of_lt (hpage.trans_le hpageLe),
    Nat.mod_eq_of_lt hsets, Nat.mod_eq_of_lt (hin.trans_le hpages),
    ← Nat.shiftLeft_add_eq_or_of_lt hin, Nat.shiftLeft_eq, Nat.shiftLeft_eq, Nat.pow_add]
  ring

/-- The pages are below the last address. -/
theorem page_end_le {setIndex pageIndex : ℕ} (hset : setIndex < 2 ^ m.setBits)
    (hpage : pageIndex < 2 ^ m.pageBits) :
    2 ^ m.offsetBits * (pageIndex + 2 ^ m.pageBits * setIndex) + 2 ^ m.offsetBits
      ≤ 2 ^ m.addrBits := by
  have hall : 2 ^ m.addrBits = 2 ^ m.offsetBits * (2 ^ m.pageBits * 2 ^ m.setBits) := by
    rw [m.addr_eq, Nat.pow_add, Nat.pow_add]
    ring
  have hsets : 2 ^ m.pageBits * (setIndex + 1) ≤ 2 ^ m.pageBits * 2 ^ m.setBits :=
    Nat.mul_le_mul_left _ hset
  have hpages : pageIndex + 2 ^ m.pageBits * setIndex + 1 ≤ 2 ^ m.pageBits * 2 ^ m.setBits := by
    rw [Nat.mul_add, Nat.mul_one] at hsets
    omega
  rw [hall, ← Nat.mul_succ]
  exact Nat.mul_le_mul_left _ hpages

/-- An address is cut into the number of the set, of the page and of the byte that it was put
together from. -/
theorem readByte_of_toNat {x : Addr} {setIndex pageIndex i : ℕ} (hset : setIndex < 2 ^ m.setBits)
    (hpage : pageIndex < 2 ^ m.pageBits) (hi : i < 2 ^ m.offsetBits)
    (hx : x.toNat = 2 ^ m.offsetBits * (pageIndex + 2 ^ m.pageBits * setIndex) + i) :
    m.readByte x = ((m.memory.getD setIndex []).getD pageIndex []).getD i 0#8 := by
  have hoffset : m.getOffset x = i := by
    rw [getOffset_eq, hx, Nat.mul_add_mod, Nat.mod_eq_of_lt hi]
  have hdiv : x.toNat / 2 ^ m.offsetBits = pageIndex + 2 ^ m.pageBits * setIndex := by
    rw [hx, Nat.mul_add_div (Nat.two_pow_pos _), Nat.div_eq_of_lt hi, Nat.add_zero]
  have hpageEq : m.getPage x = pageIndex := by
    rw [getPage_eq, hdiv, Nat.add_mul_mod_self_left, Nat.mod_eq_of_lt hpage]
  have hsetEq : m.getSet x = setIndex := by
    rw [getSet_eq, Nat.pow_add, Nat.mul_comm, ← Nat.div_div_eq_div_mul, hdiv,
      Nat.add_mul_div_left _ _ (Nat.two_pow_pos _), Nat.div_eq_of_lt hpage, Nat.zero_add,
      Nat.mod_eq_of_lt hset]
  rw [readByte, hsetEq, hpageEq, hoffset]

variable (hbits : m.addrBits < 64)
include hbits

/-- The bytes of the pieces are what is read at their addresses. -/
theorem getD_piece {piece : Addr × List Byte} (hpiece : piece ∈ m.pieces) {i : ℕ}
    (hi : i < piece.2.length) : piece.2.getD i 0#8 = m.readByte (piece.1.offset i) := by
  obtain ⟨setIndex, pageIndex, hset, hpage, rfl⟩ := mem_pieces.1 hpiece
  have hmem : m.memory.getD setIndex [] ∈ m.memory := getD_mem hset
  have hlenSet : (m.memory.getD setIndex []).length = 2 ^ m.pageBits :=
    (m.length_set _ hmem).resolve_left fun hnil => by
      rw [hnil] at hpage
      cases hpage
  have hlenPage : ((m.memory.getD setIndex []).getD pageIndex []).length = 2 ^ m.offsetBits :=
    (m.length_page _ hmem _ (getD_mem hpage)).resolve_left fun hnil => by
      rw [hnil] at hi
      cases hi
  rw [m.length_memory] at hset
  rw [hlenSet] at hpage
  have hi' : i < 2 ^ m.offsetBits := hlenPage ▸ hi
  have hfirst := toNat_getAddr hbits hset hpage
  have hlast := page_end_le hset hpage
  have hpow : 2 ^ m.addrBits < 2 ^ 64 := Nat.pow_lt_pow_right (by decide) hbits
  refine (readByte_of_toNat hset hpage hi' ?_).symm
  rw [toNat_offset (by rw [hfirst]; omega), hfirst]

/-- Where there is no piece, there are zeroes. -/
theorem covered_or_zero {x : Addr} (hx : x.toNat < 2 ^ m.addrBits) :
    m.readByte x = 0#8 ∨ ∃ piece ∈ m.pieces, Covers piece x := by
  by_cases hnil : (m.memory.getD (m.getSet x) []).getD (m.getPage x) [] = []
  · left
    rw [readByte, hnil]
    rfl
  · right
    have hset := m.getSet_lt x
    have hpage : m.getPage x < (m.memory.getD (m.getSet x) []).length := by
      by_contra hout
      rw [List.getD_eq_getElem?_getD, List.getElem?_eq_none (Nat.le_of_not_lt hout)] at hnil
      exact hnil rfl
    have hlen : ((m.memory.getD (m.getSet x) []).getD (m.getPage x) []).length = 2 ^ m.offsetBits :=
      (m.length_page _ (getD_mem hset) _ (getD_mem hpage)).resolve_left hnil
    refine ⟨_, mem_pieces.2 ⟨_, _, hset, hpage, rfl⟩, ?_⟩
    have hfields := m.fields_eq x
    have hoffset := m.getOffset_lt x
    have hfirst := toNat_getAddr hbits (m.length_memory ▸ hset) (m.getPage_lt x)
    rw [Nat.mod_eq_of_lt hx] at hfields
    simp only [Covers, hlen, hfirst]
    omega

end Pieces

section Wide

variable {m : HierarchiedMemory}

theorem getD_of_empty (h : ∀ set ∈ m.memory, set = []) (setIndex : ℕ) :
    m.memory.getD setIndex [] = [] := by
  by_cases hset : setIndex < m.memory.length
  · exact h _ (getD_mem hset)
  · rw [List.getD_eq_getElem?_getD, List.getElem?_eq_none (Nat.le_of_not_lt hset)]
    rfl

variable (h : m.Reachable)
include h

theorem Reachable.getD_piece {piece : Addr × List Byte} (hpiece : piece ∈ m.pieces) {i : ℕ}
    (hi : i < piece.2.length) : piece.2.getD i 0#8 = m.readByte (piece.1.offset i) := by
  rcases h.narrow with hbits | hempty
  · exact HierarchiedMemory.getD_piece hbits hpiece hi
  · obtain ⟨setIndex, pageIndex, -, hpage, -⟩ := mem_pieces.1 hpiece
    rw [getD_of_empty hempty] at hpage
    cases hpage

theorem Reachable.covered_or_zero {x : Addr} (hx : x.toNat < 2 ^ m.addrBits) :
    m.readByte x = 0#8 ∨ ∃ piece ∈ m.pieces, Covers piece x := by
  rcases h.narrow with hbits | hempty
  · exact HierarchiedMemory.covered_or_zero hbits hx
  · left
    rw [readByte, getD_of_empty hempty]
    rfl

end Wide

end HierarchiedMemory

namespace AnyMemory

section Model

/-- The addresses that a memory is made for. -/
def Contains : AnyMemory → Addr → Prop
  | plain m, x => x.toNat < m.arena.length
  | hierarchied m, x => x.toNat < 2 ^ m.addrBits

/-- All bytes of allocated pages are in the target. -/
def CoversPages (target : AnyMemory) (m : HierarchiedMemory) : Prop :=
  ∀ piece ∈ m.pieces, ∀ i < piece.2.length, target.Contains (piece.1.offset i)

/-- Nothing is thrown, and then what both memories have is the same. -/
def Faithful (target : AnyMemory) (m : HierarchiedMemory) : Prop :=
  ∃ target', (m.duplicateTo : Throwing SimException AnyMemory PUnit).run.run target
      = (.ok ⟨⟩, target')
    ∧ ∀ x, Contains (.hierarchied m) x → target.Contains x →
      byteAt target' x = m.checkAndReadByte x

end Model

section Faithful

variable {target : AnyMemory} {m : HierarchiedMemory} {x : Addr}

/-- The cells of the addresses that a memory is made for. -/
theorem canon_of_contains (h : target.Contains x) : canon target x = x := by
  cases target with
  | plain m => rfl
  | hierarchied m =>
    refine BitVec.eq_of_toNat_eq ?_
    show (m.canon x).toNat = x.toNat
    rw [HierarchiedMemory.toNat_canon]
    exact Nat.mod_eq_of_lt h

theorem IsFresh.byteAt_of_contains (hfresh : target.IsFresh) (h : target.Contains x) :
    byteAt target x = 0#8 := by
  cases hfresh with
  | plain hbits host => exact IsFresh.byteAt_eq (.plain hbits host) h
  | hierarchied hcreate =>
    show HierarchiedMemory.checkAndReadByte _ x = 0#8
    rw [HierarchiedMemory.checkAndReadByte_eq, (HierarchiedMemory.create_cases hcreate).2]

/-- For all contents and all new targets: the duplicate is faithful if and only if all pages of
allocated sets, touched or not, end at the limit of the target or before it. -/
theorem faithful_iff (hm : m.Reachable) (hfresh : target.IsFresh) :
    target.Faithful m ↔ ∀ piece ∈ m.pieces, FitsIn (size target) piece := by
  unfold Faithful
  rw [HierarchiedMemory.duplicateTo_eq]
  constructor
  · rintro ⟨target', hrun, -⟩
    exact fits_of_run_copies hrun
  · intro hfits
    have hstart : ∀ x, Contains (.hierarchied m) x ∧ target.Contains x →
        byteAt target x = m.readByte x ∨ ∃ piece ∈ m.pieces, Covers piece x := by
      rintro x ⟨hx, ht⟩
      rw [hfresh.byteAt_of_contains ht]
      exact (hm.covered_or_zero hx).imp_left Eq.symm
    obtain ⟨target', hrun, hend⟩ := run_copies m.pieces target hfits
      (fun piece hpiece i hi => hm.getD_piece hpiece hi) (fun x hx => canon_of_contains hx.2) hstart
    exact ⟨target', hrun, fun x hx ht => by
      rw [HierarchiedMemory.checkAndReadByte_eq, hend x ⟨hx, ht⟩]⟩

/-- Four pages of four bytes, with one that was touched, to a memory like it. -/
theorem faithful_iff_small : ∃ new m,
    HierarchiedMemory.create 4#32 2#32 2#32 = .ok new
      ∧ new.memcpyHostToGuest 5#64 [7#8] = .ok m ∧ Faithful (.hierarchied new) m := by
  obtain ⟨new, hcreate⟩ : ∃ new, HierarchiedMemory.create 4#32 2#32 2#32 = .ok new := ⟨_, rfl⟩
  obtain ⟨m, hcopy⟩ : ∃ m, new.memcpyHostToGuest 5#64 [7#8] = .ok m := by
    cases hcreate
    exact ⟨_, rfl⟩
  refine ⟨new, m, hcreate, hcopy,
    (faithful_iff (.copy (.create hcreate) hcopy) (.hierarchied hcreate)).2 ?_⟩
  cases hcreate
  cases hcopy
  unfold FitsIn
  decide

/-- The page that was touched is in the target, and another page of its set is not. -/
theorem not_faithful : ∃ new m target,
    HierarchiedMemory.create 4#32 2#32 2#32 = .ok new
      ∧ new.memcpyHostToGuest 0#64 [7#8] = .ok m ∧ IsFresh target
      ∧ target.CoversPages m ∧ ¬ target.Faithful m := by
  obtain ⟨new, hcreate⟩ : ∃ new, HierarchiedMemory.create 4#32 2#32 2#32 = .ok new := ⟨_, rfl⟩
  obtain ⟨m, hcopy⟩ : ∃ m, new.memcpyHostToGuest 0#64 [7#8] = .ok m := by
    cases hcreate
    exact ⟨_, rfl⟩
  refine ⟨new, m, _, hcreate, hcopy, .plain (show 2 < 64 by decide) fun _ => 0#8, ?_, ?_⟩
  · cases hcreate
    cases hcopy
    show ∀ piece ∈ HierarchiedMemory.pieces _, ∀ i < piece.2.length,
      (piece.1.offset i).toNat < (List.replicate (2 ^ 2) 0#8).length
    decide
  · rintro ⟨target', hrun, -⟩
    rw [HierarchiedMemory.duplicateTo_eq] at hrun
    have hfits := fits_of_run_copies hrun
    cases hcreate
    cases hcopy
    exact absurd (hfits (8#64, []) (by decide)) (by unfold FitsIn; decide)

end Faithful

end AnyMemory

end MiptMips
