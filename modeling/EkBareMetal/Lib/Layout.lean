import EkBareMetal.Lib.Words

/-!
# Blocks laid out in an image

A block is bytes with the offset they belong to, and an image takes one block
after the other. As long as no two of them share an offset, every block reads
back whatever was laid out behind it, and an offset in no block is as it was.
-/

namespace Words

abbrev Block : Type := Nat × List UInt8

def Block.stop (b : Block) : Nat := b.1 + b.2.length

/-- The blocks laid out over the image. -/
def layOut (image : List UInt8) (blocks : List Block) : List UInt8 :=
  blocks.foldl (fun image b => patch image b.1 b.2) image

/-- Each block ends where the next one may begin. -/
inductive Ordered : Nat → List Block → Nat → Prop where
  | nil (n : Nat) : Ordered n [] n
  | cons {n m : Nat} {b : Block} {blocks : List Block} (h : n ≤ b.1)
      (hr : Ordered b.stop blocks m) : Ordered n (b :: blocks) m

variable {blocks : List Block} {n m i : Nat} {b : Block}

theorem Ordered.le (h : Ordered n blocks m) : n ≤ m := by
  induction h with
  | nil n => exact Nat.le_refl n
  | cons hb _ ih =>
      unfold Block.stop at ih
      omega

theorem Ordered.mem (h : Ordered n blocks m) (hb : b ∈ blocks) : n ≤ b.1 ∧ b.stop ≤ m := by
  induction h with
  | nil => cases hb
  | @cons n m c blocks hc hr ih =>
      obtain rfl | hb := List.mem_cons.mp hb
      · exact ⟨hc, hr.le⟩
      · obtain ⟨hlo, hhi⟩ := ih hb
        unfold Block.stop at hlo
        exact ⟨by omega, hhi⟩

/-- The last block ends where the blocks end. -/
theorem Ordered.last (h : Ordered n blocks m) (hne : blocks ≠ []) :
    ∃ b ∈ blocks, b.stop = m := by
  induction h with
  | nil => exact absurd rfl hne
  | @cons n m c blocks hc hr ih =>
      cases hr with
      | nil => exact ⟨c, List.mem_cons_self, rfl⟩
      | cons h' hr' =>
          obtain ⟨b, hb, hstop⟩ := ih (List.cons_ne_nil _ _)
          exact ⟨b, List.mem_cons_of_mem _ hb, hstop⟩

theorem Ordered.concat (h : Ordered n blocks m) (hb : m ≤ b.1) :
    Ordered n (blocks ++ [b]) b.stop := by
  induction h with
  | nil n => exact .cons hb (.nil _)
  | cons hc _ ih => exact .cons hc (ih hb)

/-- The same blocks counted from an offset below all of them. -/
theorem Ordered.shift (h : Ordered n blocks m) {base : Nat} (hn : base ≤ n) :
    Ordered (n - base) (blocks.map fun b => (b.1 - base, b.2)) (m - base) := by
  induction h with
  | nil n => exact .nil _
  | @cons n m c blocks hc hr ih =>
      have hstop : base ≤ c.stop := by
        unfold Block.stop
        omega
      have hrest := ih hstop
      have hsame : c.stop - base = Block.stop (c.1 - base, c.2) := by
        unfold Block.stop
        dsimp only
        omega
      rw [hsame] at hrest
      exact .cons (Nat.sub_le_sub_right hc base) hrest

/-- A byte of an image with one block in it. -/
theorem getElem?_patch {image bs : List UInt8} {off : Nat} (h : off + bs.length ≤ image.length) :
    (patch image off bs)[i]? =
      if off ≤ i ∧ i < off + bs.length then bs[i - off]? else image[i]? := by
  have hlen : (image.take off).length = off := List.length_take_of_le (by omega)
  unfold patch
  by_cases hlo : i < off
  · rw [if_neg (by omega), List.getElem?_append_left (by omega), List.getElem?_take_of_lt hlo]
  · rw [List.getElem?_append_right (by omega), hlen]
    by_cases hhi : i < off + bs.length
    · rw [if_pos (by omega), List.getElem?_append_left (by omega)]
    · rw [if_neg (by omega), List.getElem?_append_right (by omega), List.getElem?_drop]
      congr 1
      omega

theorem length_layOut (image : List UInt8) (h : Ordered n blocks m) (hm : m ≤ image.length) :
    (layOut image blocks).length = image.length := by
  induction h generalizing image with
  | nil => rfl
  | @cons n m c blocks hc hr ih =>
      have hstop := hr.le
      unfold Block.stop at hstop
      have hpatch : (patch image c.1 c.2).length = image.length := length_patch (by omega)
      have hrest := ih (patch image c.1 c.2) (by omega)
      exact hrest.trans hpatch

/-- An offset in no block is as it was. -/
theorem layOut_outside (image : List UInt8) (h : Ordered n blocks m) (hm : m ≤ image.length)
    (hi : ∀ b ∈ blocks, ¬ (b.1 ≤ i ∧ i < b.stop)) :
    (layOut image blocks)[i]? = image[i]? := by
  induction h generalizing image with
  | nil => rfl
  | @cons n m c blocks hc hr ih =>
      obtain ⟨hci, hrest⟩ := List.forall_mem_cons.mp hi
      have hstop := hr.le
      unfold Block.stop at hstop hci
      have hpatch : (patch image c.1 c.2).length = image.length := length_patch (by omega)
      have hsame := ih (patch image c.1 c.2) (by omega) hrest
      refine hsame.trans ?_
      rw [getElem?_patch (by omega), if_neg hci]

/-- A block reads back. -/
theorem layOut_block (image : List UInt8) (h : Ordered n blocks m) (hm : m ≤ image.length)
    (hb : b ∈ blocks) {k : Nat} (hk : k < b.2.length) : (layOut image blocks)[b.1 + k]? = b.2[k]? := by
  induction h generalizing image with
  | nil => cases hb
  | @cons n m c blocks hc hr ih =>
      have hstop := hr.le
      unfold Block.stop at hstop
      have hpatch : (patch image c.1 c.2).length = image.length := length_patch (by omega)
      obtain rfl | hb := List.mem_cons.mp hb
      · -- whatever comes behind it begins at its end or later
        have hlater : ∀ c ∈ blocks, ¬ (c.1 ≤ b.1 + k ∧ b.1 + k < c.stop) := by
          intro c hc
          have hfirst := (hr.mem hc).1
          unfold Block.stop at hfirst
          omega
        have hsame := layOut_outside (patch image b.1 b.2) hr (by omega) hlater
        refine hsame.trans ?_
        rw [getElem?_patch (by omega), if_pos (by omega), Nat.add_sub_cancel_left]
      · exact ih (patch image c.1 c.2) (by omega) hb

end Words
