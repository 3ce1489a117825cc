namespace StaticImage

inductive Opcode where
  | add | sub | mul | div | mod
  | lt | le | eq | ne | gt | ge
  | and | or | xor | shl | shr
  | connect | neg | flip
  | loadNil | loadBool | loadInt | loadConst
  | move | getGlobal | setGlobal | getUpvalue | setUpvalue
  | jump | jumpTrue | jumpFalse
  | call | ret | closure
  | getMember | getMethod | setMember | getIndex | setIndex | setSuper
  | close | importModule | exceptBlock | catchError | raise
  | makeClass | getNamed | setNamed
  deriving DecidableEq, Repr, Inhabited

namespace Opcode

def all : List Opcode :=
  [add, sub, mul, div, mod, lt, le, eq, ne, gt, ge, and, or, xor, shl, shr, connect, neg, flip,
    loadNil, loadBool, loadInt, loadConst, move, getGlobal, setGlobal, getUpvalue, setUpvalue,
    jump, jumpTrue, jumpFalse, call, ret, closure, getMember, getMethod, setMember, getIndex,
    setIndex, setSuper, close, importModule, exceptBlock, catchError, raise, makeClass, getNamed,
    setNamed]

def code (op : Opcode) : Nat :=
  all.idxOf op

def ofCode? (code : Nat) : Option Opcode :=
  all[code]?

def name : Opcode → String
  | add => "ADD" | sub => "SUB" | mul => "MUL" | div => "DIV" | mod => "MOD"
  | lt => "LT" | le => "LE" | eq => "EQ" | ne => "NE" | gt => "GT" | ge => "GE"
  | and => "AND" | or => "OR" | xor => "XOR" | shl => "SHL" | shr => "SHR"
  | connect => "CONNECT" | neg => "NEG" | flip => "FLIP"
  | loadNil => "LDNIL" | loadBool => "LDBOOL" | loadInt => "LDINT" | loadConst => "LDCONST"
  | move => "MOVE" | getGlobal => "GETGBL" | setGlobal => "SETGBL"
  | getUpvalue => "GETUPV" | setUpvalue => "SETUPV"
  | jump => "JMP" | jumpTrue => "JMPT" | jumpFalse => "JMPF"
  | call => "CALL" | ret => "RET" | closure => "CLOSURE"
  | getMember => "GETMBR" | getMethod => "GETMET" | setMember => "SETMBR"
  | getIndex => "GETIDX" | setIndex => "SETIDX" | setSuper => "SETSUPER"
  | close => "CLOSE" | importModule => "IMPORT" | exceptBlock => "EXBLK"
  | catchError => "CATCH" | raise => "RAISE"
  | makeClass => "CLASS" | getNamed => "GETNGBL" | setNamed => "SETNGBL"

end Opcode

end StaticImage
