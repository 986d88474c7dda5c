namespace SeismicStream.Memory

/-- The most bytes that one buffer may take. -/
def most : Nat := 0x7FFFFFFFFFFFFFFF

/-- One buffer may hold so many items of a width in bytes. That the memory is there for a buffer that
may be held is taken for granted. -/
def Holds (count width : Nat) : Prop :=
  count * width ≤ most

instance (count width : Nat) : Decidable (Holds count width) :=
  inferInstanceAs (Decidable (_ ≤ _))

end SeismicStream.Memory
