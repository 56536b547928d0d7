/-
A frame is a run of octets behind its length in eight octets, least significant first.
Containers and their volumes are frames one after the other.
-/
import Bindery.Bytes.Endian
import Bindery.Report

namespace Bindery.Frame

/-- A failure of the container's own format. -/
def invalid (detail : Bytes) : Report := .simple .load .invalidData detail

/-- A frame around some octets. -/
def encode (s : Bytes) : Bytes := Endian.little 8 s.length ++ s

/-- The octets of the first frame and what follows it; `what` says in a failure which
frame was looked for. -/
def decode (what s : Bytes) : Except Report (Bytes × Bytes) :=
  if s.length < 8 then .error (invalid (utf8 "truncated " ++ what ++ utf8 " length"))
  else
    let n := Endian.ofLittle (s.take 8)
    let rest := s.drop 8
    if rest.length < n then
      .error (invalid (what ++ utf8 " claims " ++ Bytes.decimal n ++ utf8 " bytes, only "
        ++ Bytes.decimal rest.length ++ utf8 " remain"))
    else .ok (rest.take n, rest.drop n)

end Bindery.Frame
