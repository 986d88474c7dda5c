import SeismicStream.Bundle.Basic
import SeismicStream.Msgpack.Writer

namespace SeismicStream

open Msgpack

def Tile.write (tile : Tile) : Bytes :=
  Writer.arrayHead 6 ++ Writer.word tile.iterations ++ Writer.word tile.chunkSize ++
    Writer.word tile.initialSkip ++ Writer.word tile.superstride ++ Writer.word tile.substride ++
    Writer.bin tile.values

/-- A slice bundle: the output and its tiles. -/
def writeSlice (output : String) (tiles : List Tile) : Bytes :=
  Writer.arrayHead 2 ++ Writer.text output ++ Writer.list Tile.write tiles

/-- A curtain bundle: the output, the number of runs, the ends of their spans, the payload. -/
def WireCurtain.write (w : WireCurtain) : Bytes :=
  Writer.arrayHead 5 ++ Writer.text w.output ++ Writer.word w.size ++
    Writer.list Writer.word w.major ++ Writer.list Writer.word w.minor ++ Writer.bin w.values

end SeismicStream
