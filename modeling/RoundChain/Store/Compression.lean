import RoundChain.Bytes

/-!
# Compression

Block files may be kept compressed. A library does that, and all that the store needs to
know of it is that compressed content is found again. The program's own one is in
`RoundChain.Libraries`.
-/

namespace RoundChain

/-- What compresses content. -/
class Compression where
  compress : Bytes → Bytes
  /-- The content of compressed bytes, or what is wrong with them. -/
  decompress : Bytes → Except String Bytes
  /-- Compressed content is found again. -/
  decompress_compress (content : Bytes) : decompress (compress content) = .ok content

attribute [simp] Compression.decompress_compress

end RoundChain
