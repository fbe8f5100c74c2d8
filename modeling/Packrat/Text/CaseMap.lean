import Packrat.Text.CharSet

/-!
# Case

The lower case of a character, and the characters that differ from it by case only.
-/

namespace Packrat.Text

/-- The code points `first, first + step, …, last`, each sent to itself plus `up` minus `down`. -/
structure CaseRange where
  first : Nat
  last : Nat
  step : Nat
  up : Nat
  down : Nat

namespace CaseRange

/-- An entry of a table: the five fields as hexadecimal numbers, separated by colons. -/
def read? (entry : List Char) : Option CaseRange :=
  match (entry.splitOn ':').map CharSet.readHex with
  | [first, last, step, up, down] => some ⟨first, last, step, up, down⟩
  | _ => none

def contains (r : CaseRange) (n : Nat) : Bool :=
  decide (r.first ≤ n) && decide (n ≤ r.last) && (n - r.first) % r.step == 0

end CaseRange

/-- A map on characters that moves ranges of code points and fixes all others. -/
structure CaseMap where
  ranges : List CaseRange

namespace CaseMap

def ofTable (lines : List String) : CaseMap := ⟨(CharSet.entries lines).filterMap CaseRange.read?⟩

def apply (m : CaseMap) (c : Char) : Char :=
  match m.ranges.find? (·.contains c.toNat) with
  | some r => Char.ofNat (c.toNat + r.up - r.down)
  | none => c

/-- The other characters that `m` sends to `c`. -/
def sources (m : CaseMap) (c : Char) : List Char :=
  m.ranges.filterMap fun r =>
    if r.contains (c.toNat + r.down - r.up) && r.up ≤ c.toNat + r.down then
      some (Char.ofNat (c.toNat + r.down - r.up)) else none

end CaseMap

/-- Lower case where it is a single character, in Unicode 17. -/
def lowerMap : CaseMap := .ofTable
  ["41:5A:1:20:0 C0:D6:1:20:0 D8:DE:1:20:0 100:12E:2:1:0 132:136:2:1:0 139:147:2:1:0 14A:176:2:1:0",
   "178:178:1:0:79 179:17D:2:1:0 181:181:1:D2:0 182:184:2:1:0 186:186:1:CE:0 187:187:1:1:0",
   "189:18A:1:CD:0 18B:18B:1:1:0 18E:18E:1:4F:0 18F:18F:1:CA:0 190:190:1:CB:0 191:191:1:1:0",
   "193:193:1:CD:0 194:194:1:CF:0 196:196:1:D3:0 197:197:1:D1:0 198:198:1:1:0 19C:19C:1:D3:0",
   "19D:19D:1:D5:0 19F:19F:1:D6:0 1A0:1A4:2:1:0 1A6:1A6:1:DA:0 1A7:1A7:1:1:0 1A9:1A9:1:DA:0",
   "1AC:1AC:1:1:0 1AE:1AE:1:DA:0 1AF:1AF:1:1:0 1B1:1B2:1:D9:0 1B3:1B5:2:1:0 1B7:1B7:1:DB:0 1B8:1B8:1:1:0",
   "1BC:1BC:1:1:0 1C4:1C4:1:2:0 1C5:1C5:1:1:0 1C7:1C7:1:2:0 1C8:1C8:1:1:0 1CA:1CA:1:2:0 1CB:1DB:2:1:0",
   "1DE:1EE:2:1:0 1F1:1F1:1:2:0 1F2:1F4:2:1:0 1F6:1F6:1:0:61 1F7:1F7:1:0:38 1F8:21E:2:1:0 220:220:1:0:82",
   "222:232:2:1:0 23A:23A:1:2A2B:0 23B:23B:1:1:0 23D:23D:1:0:A3 23E:23E:1:2A28:0 241:241:1:1:0",
   "243:243:1:0:C3 244:244:1:45:0 245:245:1:47:0 246:24E:2:1:0 370:372:2:1:0 376:376:1:1:0",
   "37F:37F:1:74:0 386:386:1:26:0 388:38A:1:25:0 38C:38C:1:40:0 38E:38F:1:3F:0 391:3A1:1:20:0",
   "3A3:3AB:1:20:0 3CF:3CF:1:8:0 3D8:3EE:2:1:0 3F4:3F4:1:0:3C 3F7:3F7:1:1:0 3F9:3F9:1:0:7 3FA:3FA:1:1:0",
   "3FD:3FF:1:0:82 400:40F:1:50:0 410:42F:1:20:0 460:480:2:1:0 48A:4BE:2:1:0 4C0:4C0:1:F:0 4C1:4CD:2:1:0",
   "4D0:52E:2:1:0 531:556:1:30:0 10A0:10C5:1:1C60:0 10C7:10C7:1:1C60:0 10CD:10CD:1:1C60:0",
   "13A0:13EF:1:97D0:0 13F0:13F5:1:8:0 1C89:1C89:1:1:0 1C90:1CBA:1:0:BC0 1CBD:1CBF:1:0:BC0",
   "1E00:1E94:2:1:0 1E9E:1E9E:1:0:1DBF 1EA0:1EFE:2:1:0 1F08:1F0F:1:0:8 1F18:1F1D:1:0:8 1F28:1F2F:1:0:8",
   "1F38:1F3F:1:0:8 1F48:1F4D:1:0:8 1F59:1F5F:2:0:8 1F68:1F6F:1:0:8 1F88:1F8F:1:0:8 1F98:1F9F:1:0:8",
   "1FA8:1FAF:1:0:8 1FB8:1FB9:1:0:8 1FBA:1FBB:1:0:4A 1FBC:1FBC:1:0:9 1FC8:1FCB:1:0:56 1FCC:1FCC:1:0:9",
   "1FD8:1FD9:1:0:8 1FDA:1FDB:1:0:64 1FE8:1FE9:1:0:8 1FEA:1FEB:1:0:70 1FEC:1FEC:1:0:7 1FF8:1FF9:1:0:80",
   "1FFA:1FFB:1:0:7E 1FFC:1FFC:1:0:9 2126:2126:1:0:1D5D 212A:212A:1:0:20BF 212B:212B:1:0:2046",
   "2132:2132:1:1C:0 2160:216F:1:10:0 2183:2183:1:1:0 24B6:24CF:1:1A:0 2C00:2C2F:1:30:0 2C60:2C60:1:1:0",
   "2C62:2C62:1:0:29F7 2C63:2C63:1:0:EE6 2C64:2C64:1:0:29E7 2C67:2C6B:2:1:0 2C6D:2C6D:1:0:2A1C",
   "2C6E:2C6E:1:0:29FD 2C6F:2C6F:1:0:2A1F 2C70:2C70:1:0:2A1E 2C72:2C72:1:1:0 2C75:2C75:1:1:0",
   "2C7E:2C7F:1:0:2A3F 2C80:2CE2:2:1:0 2CEB:2CED:2:1:0 2CF2:2CF2:1:1:0 A640:A66C:2:1:0 A680:A69A:2:1:0",
   "A722:A72E:2:1:0 A732:A76E:2:1:0 A779:A77B:2:1:0 A77D:A77D:1:0:8A04 A77E:A786:2:1:0 A78B:A78B:1:1:0",
   "A78D:A78D:1:0:A528 A790:A792:2:1:0 A796:A7A8:2:1:0 A7AA:A7AA:1:0:A544 A7AB:A7AB:1:0:A54F",
   "A7AC:A7AC:1:0:A54B A7AD:A7AD:1:0:A541 A7AE:A7AE:1:0:A544 A7B0:A7B0:1:0:A512 A7B1:A7B1:1:0:A52A",
   "A7B2:A7B2:1:0:A515 A7B3:A7B3:1:3A0:0 A7B4:A7C2:2:1:0 A7C4:A7C4:1:0:30 A7C5:A7C5:1:0:A543",
   "A7C6:A7C6:1:0:8A38 A7C7:A7C9:2:1:0 A7CB:A7CB:1:0:A567 A7CC:A7DA:2:1:0 A7DC:A7DC:1:0:A641",
   "A7F5:A7F5:1:1:0 FF21:FF3A:1:20:0 10400:10427:1:28:0 104B0:104D3:1:28:0 10570:1057A:1:27:0",
   "1057C:1058A:1:27:0 1058C:10592:1:27:0 10594:10595:1:27:0 10C80:10CB2:1:40:0 10D50:10D65:1:20:0",
   "118A0:118BF:1:20:0 16E40:16E5F:1:20:0 16EA0:16EB8:1:1B:0 1E900:1E921:1:22:0"]

/-- Simple case folding, in Unicode 16. -/
def foldMap : CaseMap := .ofTable
  ["41:5A:1:20:0 B5:B5:1:307:0 C0:D6:1:20:0 D8:DE:1:20:0 100:12E:2:1:0 132:136:2:1:0 139:147:2:1:0",
   "14A:176:2:1:0 178:178:1:0:79 179:17D:2:1:0 17F:17F:1:0:10C 181:181:1:D2:0 182:184:2:1:0",
   "186:186:1:CE:0 187:187:1:1:0 189:18A:1:CD:0 18B:18B:1:1:0 18E:18E:1:4F:0 18F:18F:1:CA:0",
   "190:190:1:CB:0 191:191:1:1:0 193:193:1:CD:0 194:194:1:CF:0 196:196:1:D3:0 197:197:1:D1:0",
   "198:198:1:1:0 19C:19C:1:D3:0 19D:19D:1:D5:0 19F:19F:1:D6:0 1A0:1A4:2:1:0 1A6:1A6:1:DA:0",
   "1A7:1A7:1:1:0 1A9:1A9:1:DA:0 1AC:1AC:1:1:0 1AE:1AE:1:DA:0 1AF:1AF:1:1:0 1B1:1B2:1:D9:0 1B3:1B5:2:1:0",
   "1B7:1B7:1:DB:0 1B8:1B8:1:1:0 1BC:1BC:1:1:0 1C4:1C4:1:2:0 1C5:1C5:1:1:0 1C7:1C7:1:2:0 1C8:1C8:1:1:0",
   "1CA:1CA:1:2:0 1CB:1DB:2:1:0 1DE:1EE:2:1:0 1F1:1F1:1:2:0 1F2:1F4:2:1:0 1F6:1F6:1:0:61 1F7:1F7:1:0:38",
   "1F8:21E:2:1:0 220:220:1:0:82 222:232:2:1:0 23A:23A:1:2A2B:0 23B:23B:1:1:0 23D:23D:1:0:A3",
   "23E:23E:1:2A28:0 241:241:1:1:0 243:243:1:0:C3 244:244:1:45:0 245:245:1:47:0 246:24E:2:1:0",
   "345:345:1:74:0 370:372:2:1:0 376:376:1:1:0 37F:37F:1:74:0 386:386:1:26:0 388:38A:1:25:0",
   "38C:38C:1:40:0 38E:38F:1:3F:0 391:3A1:1:20:0 3A3:3AB:1:20:0 3C2:3C2:1:1:0 3CF:3CF:1:8:0",
   "3D0:3D0:1:0:1E 3D1:3D1:1:0:19 3D5:3D5:1:0:F 3D6:3D6:1:0:16 3D8:3EE:2:1:0 3F0:3F0:1:0:36",
   "3F1:3F1:1:0:30 3F4:3F4:1:0:3C 3F5:3F5:1:0:40 3F7:3F7:1:1:0 3F9:3F9:1:0:7 3FA:3FA:1:1:0",
   "3FD:3FF:1:0:82 400:40F:1:50:0 410:42F:1:20:0 460:480:2:1:0 48A:4BE:2:1:0 4C0:4C0:1:F:0 4C1:4CD:2:1:0",
   "4D0:52E:2:1:0 531:556:1:30:0 10A0:10C5:1:1C60:0 10C7:10C7:1:1C60:0 10CD:10CD:1:1C60:0",
   "13F8:13FD:1:0:8 1C80:1C80:1:0:184E 1C81:1C81:1:0:184D 1C82:1C82:1:0:1844 1C83:1C84:1:0:1842",
   "1C85:1C85:1:0:1843 1C86:1C86:1:0:183C 1C87:1C87:1:0:1824 1C88:1C88:1:89C3:0 1C89:1C89:1:1:0",
   "1C90:1CBA:1:0:BC0 1CBD:1CBF:1:0:BC0 1E00:1E94:2:1:0 1E9B:1E9B:1:0:3A 1E9E:1E9E:1:0:1DBF",
   "1EA0:1EFE:2:1:0 1F08:1F0F:1:0:8 1F18:1F1D:1:0:8 1F28:1F2F:1:0:8 1F38:1F3F:1:0:8 1F48:1F4D:1:0:8",
   "1F59:1F5F:2:0:8 1F68:1F6F:1:0:8 1F88:1F8F:1:0:8 1F98:1F9F:1:0:8 1FA8:1FAF:1:0:8 1FB8:1FB9:1:0:8",
   "1FBA:1FBB:1:0:4A 1FBC:1FBC:1:0:9 1FBE:1FBE:1:0:1C05 1FC8:1FCB:1:0:56 1FCC:1FCC:1:0:9",
   "1FD3:1FD3:1:0:1C43 1FD8:1FD9:1:0:8 1FDA:1FDB:1:0:64 1FE3:1FE3:1:0:1C33 1FE8:1FE9:1:0:8",
   "1FEA:1FEB:1:0:70 1FEC:1FEC:1:0:7 1FF8:1FF9:1:0:80 1FFA:1FFB:1:0:7E 1FFC:1FFC:1:0:9",
   "2126:2126:1:0:1D5D 212A:212A:1:0:20BF 212B:212B:1:0:2046 2132:2132:1:1C:0 2160:216F:1:10:0",
   "2183:2183:1:1:0 24B6:24CF:1:1A:0 2C00:2C2F:1:30:0 2C60:2C60:1:1:0 2C62:2C62:1:0:29F7",
   "2C63:2C63:1:0:EE6 2C64:2C64:1:0:29E7 2C67:2C6B:2:1:0 2C6D:2C6D:1:0:2A1C 2C6E:2C6E:1:0:29FD",
   "2C6F:2C6F:1:0:2A1F 2C70:2C70:1:0:2A1E 2C72:2C72:1:1:0 2C75:2C75:1:1:0 2C7E:2C7F:1:0:2A3F",
   "2C80:2CE2:2:1:0 2CEB:2CED:2:1:0 2CF2:2CF2:1:1:0 A640:A66C:2:1:0 A680:A69A:2:1:0 A722:A72E:2:1:0",
   "A732:A76E:2:1:0 A779:A77B:2:1:0 A77D:A77D:1:0:8A04 A77E:A786:2:1:0 A78B:A78B:1:1:0",
   "A78D:A78D:1:0:A528 A790:A792:2:1:0 A796:A7A8:2:1:0 A7AA:A7AA:1:0:A544 A7AB:A7AB:1:0:A54F",
   "A7AC:A7AC:1:0:A54B A7AD:A7AD:1:0:A541 A7AE:A7AE:1:0:A544 A7B0:A7B0:1:0:A512 A7B1:A7B1:1:0:A52A",
   "A7B2:A7B2:1:0:A515 A7B3:A7B3:1:3A0:0 A7B4:A7C2:2:1:0 A7C4:A7C4:1:0:30 A7C5:A7C5:1:0:A543",
   "A7C6:A7C6:1:0:8A38 A7C7:A7C9:2:1:0 A7CB:A7CB:1:0:A567 A7CC:A7CC:1:1:0 A7D0:A7D0:1:1:0",
   "A7D6:A7DA:2:1:0 A7DC:A7DC:1:0:A641 A7F5:A7F5:1:1:0 AB70:ABBF:1:0:97D0 FB05:FB05:1:1:0",
   "FF21:FF3A:1:20:0 10400:10427:1:28:0 104B0:104D3:1:28:0 10570:1057A:1:27:0 1057C:1058A:1:27:0",
   "1058C:10592:1:27:0 10594:10595:1:27:0 10C80:10CB2:1:40:0 10D50:10D65:1:20:0 118A0:118BF:1:20:0",
   "16E40:16E5F:1:20:0 1E900:1E921:1:22:0"]

/-- The lower case of a character. Only the dotted capital I has one of two characters. -/
def lower (c : Char) : List Char :=
  if c.toNat < 128 then [c.toLower]
  else if c.toNat = 0x130 then ['i', Char.ofNat 0x307]
  else [lowerMap.apply c]

def sameLower (a b : Char) : Bool := a == b || lower a == lower b

/-- All characters with the simple case folding of `c`. -/
def caseVariants (c : Char) : List Char :=
  let folded := foldMap.apply c
  folded :: foldMap.sources folded

end Packrat.Text
