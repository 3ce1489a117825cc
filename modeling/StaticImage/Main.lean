import StaticImage.Command.Run

open StaticImage StaticImage.Command

def complain (lines : List String) : IO Unit :=
  lines.forM fun line => IO.eprintln line

def carryOut (e : Execution) : IO UInt32 := do
  let bytes := ByteArray.mk e.bytes.toArray
  match e.output with
  | some path => IO.FS.writeBinFile path bytes
  | none =>
    let out ← IO.getStdout
    out.write bytes
    out.flush
  complain e.complaints
  return if e.complaints.isEmpty then 0 else failed.toUInt32

def main (words : List String) : IO UInt32 := do
  match read? words with
  | none =>
    complain ["usage: solidify [OPTIONS] <FILE>"]
    return badCommandLine.toUInt32
  | some a =>
    try
      let content ← IO.FS.readBinFile (a.file.getD "")
      match Utf8.decode content.toList with
      | .error fault =>
        complain [fault.message]
        return failed.toUInt32
      | .ok text =>
        match execute .wide a text with
        | .error lines =>
          complain lines
          return failed.toUInt32
        | .ok e => carryOut e
    catch e =>
      complain [toString e]
      return failed.toUInt32
