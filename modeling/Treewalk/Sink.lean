/- Sinks take text as bytes, some of them only so many. -/

namespace Treewalk

/-- Bytes taken so far, and how many the sink takes in all. -/
structure Sink where
  bytes : Array UInt8 := #[]
  limit : Option Nat := none

namespace Sink

/-- Writes text, and tells whether all of it fitted; what fits is kept also when the rest does not. -/
def write (s : Sink) (text : String) : Sink × Bool :=
  let new := text.toUTF8.data
  match s.limit with
  | none => ({ s with bytes := s.bytes ++ new }, true)
  | some n =>
      let room := n - s.bytes.size
      if new.size ≤ room then ({ s with bytes := s.bytes ++ new }, true)
      else ({ s with bytes := s.bytes ++ new.take room }, false)

end Sink

end Treewalk
