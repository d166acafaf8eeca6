import Ext4.Base.Bytes

namespace Bytes

structure Record (n : Nat) (F : Type) [DecidableEq F] where
  fields : List F
  width : F → Nat
  mem_fields : ∀ f, f ∈ fields
  nodup : fields.Nodup
  total : (fields.map width).sum = n

namespace Record

variable {n : Nat} {F : Type} [DecidableEq F] {fields : List F} {f g : F} {v : List UInt8}

def offsetIn (width : F → Nat) : List F → F → Nat
  | [], _ => 0
  | g :: rest, f => if g = f then 0 else width g + offsetIn width rest f

theorem offsetIn_add_width_le (width : F → Nat) (h : f ∈ fields) :
    offsetIn width fields f + width f ≤ (fields.map width).sum := by
  induction fields with
  | nil => cases h
  | cons g rest ih =>
    simp only [offsetIn, List.map_cons, List.sum_cons]
    split
    case isTrue hg =>
      subst hg
      omega
    case isFalse hg =>
      have hrest := ih ((List.mem_cons.mp h).resolve_left (Ne.symm hg))
      omega

theorem offsetIn_disjoint (width : F → Nat) (hf : f ∈ fields) (hg : g ∈ fields) (hne : f ≠ g) :
    offsetIn width fields f + width f ≤ offsetIn width fields g ∨
      offsetIn width fields g + width g ≤ offsetIn width fields f := by
  induction fields with
  | nil => cases hf
  | cons x rest ih =>
    simp only [offsetIn]
    by_cases hxf : x = f
    · subst hxf
      simp [hne]
    · by_cases hxg : x = g
      · subst hxg
        simp [hxf]
      · have hrest := ih ((List.mem_cons.mp hf).resolve_left (Ne.symm hxf))
          ((List.mem_cons.mp hg).resolve_left (Ne.symm hxg))
        simp only [if_neg hxf, if_neg hxg]
        omega

variable (r : Record n F)

def offset (f : F) : Nat := offsetIn r.width r.fields f

def bytes (b : Buffer n) (f : F) : List UInt8 := slice b (r.offset f) (r.width f)

def num (b : Buffer n) (f : F) : Nat := leVal (r.bytes b f)

def put (b : Buffer n) (f : F) (v : List UInt8) : Buffer n := splice b (r.offset f) v

def putAll (v : F → List UInt8) : Buffer n → List F → Buffer n
  | b, [] => b
  | b, f :: rest => putAll v (r.put b f (v f)) rest

def build (v : F → List UInt8) : Buffer n := r.putAll v (zeros n) r.fields

theorem offset_add_width_le (f : F) : r.offset f + r.width f ≤ n := by
  have h := offsetIn_add_width_le r.width (r.mem_fields f)
  rwa [r.total] at h

section

variable (b : Buffer n)

@[simp] theorem length_bytes (f : F) : (r.bytes b f).length = r.width f := by
  simp [bytes]

theorem num_lt (f : F) : r.num b f < 256 ^ r.width f := by
  simpa [num] using leVal_lt (r.bytes b f)

theorem bytes_put_same (hv : v.length = r.width f) :
    r.bytes (r.put b f v) f = v := by
  unfold bytes put
  rw [← hv]
  exact slice_splice_same b _ v (by rw [hv]; exact r.offset_add_width_le f)

theorem bytes_put_other (hv : v.length = r.width f)
    (hne : f ≠ g) : r.bytes (r.put b f v) g = r.bytes b g := by
  have hd := offsetIn_disjoint r.width (r.mem_fields f) (r.mem_fields g) hne
  apply slice_splice_disjoint
  rw [hv]
  exact hd.symm

end

section

variable {v : F → List UInt8} (hv : ∀ f, (v f).length = r.width f)
include hv

theorem bytes_putAll (b : Buffer n)
    (fields : List F) (f : F) :
    r.bytes (r.putAll v b fields) f = if f ∈ fields then v f else r.bytes b f := by
  induction fields generalizing b with
  | nil => rfl
  | cons g rest ih =>
    rw [putAll, ih]
    by_cases hf : f ∈ rest
    · simp [hf]
    · by_cases hg : g = f
      · subst hg
        simp [hf, r.bytes_put_same b (hv g)]
      · simp [hf, Ne.symm hg, r.bytes_put_other b (hv g) hg]

theorem bytes_build (f : F) :
    r.bytes (r.build v) f = v f := by
  rw [build, r.bytes_putAll hv, if_pos (r.mem_fields f)]

end

end Record

end Bytes
