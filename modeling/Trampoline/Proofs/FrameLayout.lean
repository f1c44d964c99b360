import Mathlib.Order.Bounds.Basic
import Trampoline.Proofs.Stub.Frame

/-!
# The law of frame layouts

A layout is computed by adding sizes up and rounding twice.  What it has to be can be said without
either: the regions tile the frame from its lowest address (`Tiles`), and the size of the frame is
the least multiple of the alignment that they fit in.  Rounding is determined by its being least
(`isLeast_roundUp`), and that it is monotone follows.

Demands are compared by what they ask for (`Demand.AtMost`).  If one asks for more, the sizes of its
regions grow (`Grows`), and it may have a region more at the end; so no region moves down.
-/

set_option autoImplicit false

namespace Trampoline

/-! ## Rounding -/

section

variable {m n alignment : Nat}

theorem isLeast_roundUp (n : Nat) (h : 0 < alignment) :
    IsLeast {m | alignment ∣ m ∧ n ≤ m} (roundUp n alignment) := by
  refine ⟨⟨alignment_dvd_roundUp n alignment, le_roundUp n h⟩, ?_⟩
  rintro m ⟨⟨k, rfl⟩, hle⟩
  have hdiv : (n + alignment - 1) / alignment ≤ k := by
    refine Nat.le_of_lt_succ ((Nat.div_lt_iff_lt_mul h).2 ?_)
    rw [Nat.succ_mul, Nat.mul_comm]
    omega
  rw [roundUp, Nat.mul_comm]
  exact Nat.mul_le_mul_left alignment hdiv

theorem roundUp_mono (h : 0 < alignment) (hle : m ≤ n) :
    roundUp m alignment ≤ roundUp n alignment :=
  (isLeast_roundUp n h).mono (isLeast_roundUp m h) fun _ hk => ⟨hk.1, Nat.le_trans hle hk.2⟩

end

namespace Frame

/-! ## Regions one behind the other -/

/-- The first span is at `start`, every other one begins where the one before it ends, and the last
one ends at `stop`. -/
def Tiles : Nat → List Span → Nat → Prop
  | start, [], stop => start = stop
  | start, s :: rest, stop => s.offset = start ∧ Tiles s.stop rest stop

/-- The same regions in the same order, none of them smaller, and maybe others behind them. -/
inductive Grows : List (Region × Nat) → List (Region × Nat) → Prop
  | nil (sizes : List (Region × Nat)) : Grows [] sizes
  | cons {region : Region} {size size' : Nat} {rest rest' : List (Region × Nat)}
    (h : size ≤ size') (h' : Grows rest rest') :
    Grows ((region, size) :: rest) ((region, size') :: rest')

namespace Demand

section

variable {start start' : Nat} {sizes sizes' : List (Region × Nat)} {r : Region} {s : Span}

theorem tiles_spansFrom (start : Nat) (sizes : List (Region × Nat)) :
    Tiles start (spansFrom start sizes) (start + total Prod.snd sizes) := by
  induction sizes generalizing start with
  | nil => rfl
  | cons first rest ih =>
    refine ⟨rfl, ?_⟩
    rw [total_cons, ← Nat.add_assoc]
    exact ih _

theorem map_spansFrom (start : Nat) (sizes : List (Region × Nat)) :
    (spansFrom start sizes).map (fun s => (s.region, s.size)) = sizes := by
  induction sizes generalizing start with
  | nil => rfl
  | cons first rest ih => exact congrArg (first :: ·) (ih _)

theorem total_le_of_grows (h : Grows sizes sizes') :
    total Prod.snd sizes ≤ total Prod.snd sizes' := by
  induction h with
  | nil => exact Nat.zero_le _
  | cons hsize _ ih =>
    rw [total_cons, total_cons]
    exact Nat.add_le_add hsize ih

/-- No region moves down when the sizes grow. -/
theorem offset_le_of_grows (h : Grows sizes sizes') (hstart : start ≤ start')
    (hs : (spansFrom start sizes).find? (·.region = r) = some s) :
    ∃ s', (spansFrom start' sizes').find? (·.region = r) = some s' ∧ s.offset ≤ s'.offset := by
  induction h generalizing start start' with
  | nil => cases hs
  | @cons region size size' rest rest' hsize _ ih =>
    rw [spansFrom, List.find?_cons] at hs
    rw [spansFrom, List.find?_cons]
    by_cases hregion : region = r
    · simp only [hregion, decide_true] at hs ⊢
      obtain rfl := Option.some.inj hs
      exact ⟨_, rfl, hstart⟩
    · simp only [hregion, decide_false] at hs ⊢
      exact ih (Nat.add_le_add hstart hsize) hs

end

/-! ## Demands -/

/-- The stack rules are those of a convention. -/
structure Follows (d : Demand) (c : Convention) : Prop where
  shadowSpace : d.shadowSpace = c.shadowSpace
  alignment : d.alignment = c.alignment

/-- One demand asks for no more than another. -/
structure AtMost (d d' : Demand) : Prop where
  outSlots : d.outSlots ≤ d'.outSlots
  resultBytes : d.resultBytes ≤ d'.resultBytes
  argBytes : d.argBytes ≤ d'.argBytes
  calleeBytes : d.calleeBytes ≤ d'.calleeBytes
  returnBuffer : ∀ bytes ∈ d.returnBuffer, ∃ bytes' ∈ d'.returnBuffer, bytes ≤ bytes'

variable {d d' : Demand} {c : Convention}

theorem Follows.grows (h : d.Follows c) (h' : d'.Follows c) (hle : d.AtMost d') :
    Grows d.sizes d'.sizes := by
  have hout : d.outArgBytes ≤ d'.outArgBytes := by
    rw [outArgBytes, outArgBytes, h.alignment, h'.alignment, h.shadowSpace, h'.shadowSpace]
    have hslots := hle.outSlots
    have hround := roundUp_mono c.alignment_pos (Nat.mul_le_mul_right 4 hslots)
    omega
  have hbuffer : Grows (d.returnBuffer.toList.map fun bytes => (.returnBuffer, bytes))
      (d'.returnBuffer.toList.map fun bytes => (.returnBuffer, bytes)) := by
    have hbuffers := hle.returnBuffer
    cases hb : d.returnBuffer with
    | none => exact .nil _
    | some bytes =>
      obtain ⟨bytes', hb', hbytes⟩ := hbuffers bytes hb
      rw [Option.mem_def.1 hb']
      exact .cons hbytes (.nil _)
  exact .cons hout (.cons (Nat.le_refl _) (.cons hle.resultBytes (.cons hle.argBytes
    (.cons hle.calleeBytes (.cons (Nat.le_refl _) hbuffer)))))

/-- **How a frame is laid out.**  The regions are there in their order, the last one if and only if
it is asked for, with the sizes that are asked for; what goes out is rounded up, and has at least
the shadow space.  They tile the frame, which is as small as its alignment allows and never empty.
Who asks for more gets no smaller frame, and no region of it further down. -/
theorem layout_law (h : d.Follows c) :
    (∃ rounded, IsLeast {m | c.alignment ∣ m ∧ d.outSlots * 4 ≤ m} rounded ∧
      d.layout.spans.map (fun s => (s.region, s.size)) =
        [(.outArgs, max rounded c.shadowSpace), (.deoptSpill, 8), (.resultSave, d.resultBytes),
          (.argSave, d.argBytes), (.calleeSave, d.calleeBytes), (.frameData, 56)] ++
          d.returnBuffer.toList.map fun bytes => (.returnBuffer, bytes)) ∧
    (∃ stop, Tiles 0 d.layout.spans stop ∧
      IsLeast {m | c.alignment ∣ m ∧ stop ≤ m} d.layout.size ∧ 0 < d.layout.size) ∧
    ∀ d' : Demand, d'.Follows c → d.AtMost d' →
      d.layout.size ≤ d'.layout.size ∧
      ∀ r s, d.layout.span? r = some s →
        ∃ s', d'.layout.span? r = some s' ∧ s.offset ≤ s'.offset := by
  have halignment := c.alignment_pos
  refine ⟨?_, ?_, fun d' h' hle => ⟨?_, fun r s => ?_⟩⟩
  · refine ⟨_, isLeast_roundUp _ halignment, ?_⟩
    rw [layout, map_spansFrom, sizes, outArgBytes, h.alignment, h.shadowSpace]
    rfl
  · have htiles := tiles_spansFrom 0 d.sizes
    have hleast := isLeast_roundUp (total Prod.snd d.sizes) halignment
    rw [Nat.zero_add] at htiles
    rw [← h.alignment] at hleast ⊢
    refine ⟨_, htiles, hleast, ?_⟩
    -- the record for the hooks is never empty
    have hstop := d.dataStop_le_size (h.alignment ▸ halignment)
    have hdata : 0 < dataBytes := by decide
    simp only [dataStop] at hstop
    omega
  · rw [layout, layout, h.alignment, h'.alignment]
    exact roundUp_mono halignment (total_le_of_grows (h.grows h' hle))
  · exact offset_le_of_grows (h.grows h' hle) (Nat.le_refl 0)

/-- Two more slots and a return buffer, with the stack rules of native code. -/
theorem layout_law_buffered :
    ({ outSlots := 3 } : Demand).layout.size = 80 ∧
    ({ outSlots := 3 } : Demand).layout.size ≤
      ({ outSlots := 5, returnBuffer := some 24 } : Demand).layout.size := by
  have h : ({ outSlots := 3 } : Demand).Follows .aapcs64 := ⟨rfl, rfl⟩
  have hle : ({ outSlots := 3 } : Demand).AtMost { outSlots := 5, returnBuffer := some 24 } :=
    ⟨by decide, by decide, by decide, by decide, by simp⟩
  exact ⟨by decide, ((layout_law h).2.2 _ ⟨rfl, rfl⟩ hle).1⟩

end Demand

end Frame

end Trampoline
