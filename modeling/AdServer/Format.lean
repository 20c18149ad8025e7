import AdServer.Url.Query

/-!
`printf` as far as the program uses it: `%d`, `%0wd` with one digit for the width, `%s` and `%%`.
-/
namespace AdServer

open Url

inductive FormatArg
  | int (n : Int)
  | text (s : Bytes)
  deriving DecidableEq, Repr

/-- `%0wd`: zeros stand between the sign and the digits. -/
def zeroPadded (width : Nat) (n : Int) : Bytes :=
  if n < 0 then byte '-' :: (decimal n.natAbs).leftpad (width - 1) (byte '0')
  else (decimal n.natAbs).leftpad width (byte '0')

/-- The text that is printed; `none` if another conversion stands in the format or an argument
is missing or of another type. -/
def printfText : Bytes → List FormatArg → Option Bytes
  | [], _ => some []
  | [c], _ => if c = byte '%' then none else some [c]
  | c :: k :: rest, args =>
    if c ≠ byte '%' then (printfText (k :: rest) args).map (c :: ·)
    else if k = byte '%' then (printfText rest args).map (byte '%' :: ·)
    else
      match args with
      | [] => none
      | .text s :: args =>
        if k = byte 's' then (printfText rest args).map (cString s ++ ·) else none
      | .int n :: args =>
        if k = byte 'd' then (printfText rest args).map (intToString n ++ ·)
        else
          match rest with
          | w :: d :: rest' =>
            if k = byte '0' ∧ isDigit w = true ∧ d = byte 'd' then
              (printfText rest' args).map (zeroPadded (digitValue w) n ++ ·)
            else none
          | _ => none

example : printfText (bytes "%04d-%s%%") [.int 86, .text (bytes "ab")] =
    some (bytes "0086-ab%") := by
  decide +kernel

end AdServer
