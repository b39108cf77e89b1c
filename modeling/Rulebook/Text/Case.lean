/-
Case maps of Unicode 14: lower, upper and title case of texts.

Simple maps are runs of code points that all move by one offset; a few
characters expand to several. The capital sigma at the end of a word has a lower
case of its own. Over ASCII the maps are those of `Char`.
-/

import Rulebook.Text.CharClass

namespace Rulebook.Text

/-- A run of code points `first, first + step, … , last` that a case map moves by
one offset. -/
structure CaseRun where
  first : Nat
  last : Nat
  step : Nat
  offset : Int

/-- Reads runs that lie behind a code point, three numbers for each. The second one is twice the
length, and one more for steps of two; the third one is twice the offset, and one more if the offset
is negative. -/
def CaseRun.runsFrom (n : Nat) : List Nat → List CaseRun
  | gap :: size :: shift :: rest =>
    let offset : Int := (shift / 2 : Nat)
    ⟨n + gap, n + gap + size / 2, size % 2 + 1, if shift % 2 = 0 then offset else -offset⟩ ::
      runsFrom (n + gap + size / 2) rest
  | _ => []

def CaseRun.ofTable (lines : List String) : List CaseRun := runsFrom 0 (numbersOf lines)

def CaseRun.moves (r : CaseRun) (n : Nat) : Bool :=
  r.first ≤ n && n ≤ r.last && (n - r.first) % r.step == 0

/-- Reads runs of code points whose expansions move along in their first character; of the other
two a zero stands for none. -/
def expansionsFrom (n : Nat) : List Nat → List (Nat × List Char)
  | gap :: size :: a :: b :: c :: rest =>
    (List.range (size + 1)).map (fun i =>
        (n + gap + i, ((a + i) :: [b, c].filter (· ≠ 0)).map Char.ofNat)) ++
      expansionsFrom (n + gap + size) rest
  | _ => []

def expansionsOfTable (lines : List String) : List (Nat × List Char) :=
  expansionsFrom 0 (numbersOf lines)

def moveBy (runs : List CaseRun) (c : Char) : Char :=
  match runs.find? (·.moves c.toNat) with
  | none => c
  | some r => Char.ofNat (Int.toNat (c.toNat + r.offset))

def lowerRuns : List CaseRun :=
  CaseRun.ofTable
   ["hKbScMCMcMbIdPCEJCDbDCDdLCCAjJBJCEAqEBFCCApWBACCCpUBACDAgCBApOBApQBACCApUBApYCAqGBAqCBACEAqGBA",
    "qKCAqMBJCCAqUBACCAqUDACCAqUBACCCqSBFCCAqWBACEACIAEBACCAEBACCAEBbHCDbHCDAEBFCCAhNBAeJBcZCCAkBCb",
    "HCIAbfyKBACCAmPBAbfyEDACCApBBAfIBAfMBRClEFCEACJAiYHAcYCEcWCAeYCCeWCbGcMCQcMbKAQJbTCGAeRDACCAPB",
    "ACDEkBBbEgEBcKcMbXcNCKeBCCAbEBZCDhHCDcWdSehEcWvmUCAvmUGAvmUbbVgCekzOBKQdgTdGixLDEixLmJlLCKAwnV",
    "ChHCKORJKRLORJORJKRMNRJORZORJORJORJCRBCfTBATMGgRBATMCRBChTNCRBCiRBAPMCjXBCjTBATlMAwgHEAyuXBAyl",
    "PHAcEbUbEbGUACbfNbYcAcsVdQdSbXACCAbfuLBAlhLBAbftFDJCCAbfxHBAbfuXBAbfxNBAbfxLCACDACJCbfzZBhPCJF",
    "CFACbtyKdLCUcBCfGZCEeRCLFCCAeanXBRCFACCAevcJDFCEbLCCAeveNBAevfJBAevfBBAeveHBAeveNCAevaRBAevcNB",
    "AevaXBActKBbDCCAdTBAeveLBAearXBFCHACGFCbDACbhaIbYcMbvAdAdCfHcSdCgBUdACbCdACMdACCdAcqDdWeYenMcK",
    "cMbgjXcKcMbulLcOcQ"]

def upperRuns : List CaseRun :=
  CaseRun.ofTable
   ["gZAcfEbRbScNCMcNBAjICdPDCArXCJDDbDDDdLDDJDBAxDBApADFDDADEADGADDAhMEADBAmOEAkADJDDADFADDADEFDDA",
    "DEADCAeIGADBAFCADBAFCADBAFCbDDBAgDCbHDDADBAFCADEcZDEbHDJADDCbfzYCADFRDBAbfxMBAbfxGBAbfxKBAqFBA",
    "pXCCpVCApPCApRBAevfIEApVBAevfACApZCAevcIBAeveMCAqDBAqHBAeveMBAbfuKBAeveGDAqHCAbfuWBAqLDAqNIAbf",
    "tEDAqVCAeveKBAqVEAevcMBAqVBAfJBCqTBAfNGAqXLAevaWBAevaQgLAgMbSFDEADEEkAbVAcZBEcXCbGcNBAcLBQcNBA",
    "eZBCeXCAeVBAeLEAdRBAeFBARCbTDBAgRBAgFBAOBAiZCAhLDADDADcBcKcNBbEgFCcNDKeBDDZDBAbFChHDbYcWdTehEd",
    "GixKDEixKbdHKRdfVAsnDBAsnBBAsmJBCsmFBAsmHBAslTBAshNBAeaiUjHAeanWEAlhKRAearWeLlLDGAePGhHDBOQJKQ",
    "LOQJOQJKQMNQJOQJCfSBGgQBChSBCjWBCiQBCjSbZCQNAviHSCQPCQEAOnXAcFbIbEbHFADbgMbYcBctRdQdTCADEAbfyL",
    "BAbfyFCJDHADDADLhPDJFDFADNcWvmVCAvmVGAvmVbtwEdLDUcBDfGZDEeRDLFDDRDFADFFDBAdSDbLDMbDDFFDHADGFDb",
    "DADbhDActLbDgCekzPbfqGbYcNbvIdAdDfHcSdDgAUdBCbCdBCMdBCCdBcrCdWeZemGcKcNbgjXcKcNbulNcOcR"]

def upperExpansions : List (Nat × List Char) :=
  expansionsOfTable
   ["iPAdFdFAeCAbaYdAAgLAcWbeAAqAAbjLbdWbdPbGAbjXbdWbdPsDAbzHcaKAjmTAcUbfLABAdGbdWABAdJbdYABAdLbdYA",
    "BAcNbbAAhAAbjXbeHACAbjXbeHbdOCAbjXbeHbdPCAbjXbeHbgCbQHltObjLABHltObjLABHluUbjLABHluUbjLABHlxGb",
    "jLABHlxGbjLADAmaKbjLABAbjDbjLABAbiSbjLACAbjDbgCABAbjDbgCbjLFAbjDbjLAGAmbAbjLABAbjJbjLABAbiVbjL",
    "ACAbjJbgCABAbjJbgCbjLFAbjJbjLAGAbjLbdWbdOBAbjLbdWbdPDAbjLbgCABAbjLbdWbgCLAbjXbdWbdOBAbjXbdWbdP",
    "BAbjTbeHACAbjXbgCABAbjXbdWbgCLAmcWbjLABAbkBbjLABAbjBbjLACAbkBbgCABAbkBbgCbjLFAbkBbjLAdeyMAcScS",
    "ABAcScVABAcScYABAcScScVBAcScScYBAdFdGABAdFdGANAbzWbzYABAbzWbzHABAbzWbzNABAcaGbzYABAbzWbzPA"]

def titleRuns : List CaseRun :=
  CaseRun.ofTable
   ["rKACBAABADBACBAABADBACBAABADbLACBAABADfqJdGADEAfmVOQBOABOQBOABOQBOAEASJAAHASJAAbNASJAA"]

def titleExpansions : List (Nat × List Char) :=
  expansionsOfTable
   ["iPAdFeLAbtWAbzHccGAjxRAmaKbgFACAbiSbgFADAbjDbgCbgFLAmbAbgFACAbiVbgFADAbjJbgCbgFbRAmcWbgFACAbjB",
    "bgFADAbkBbgCbgFdeyRAcSdYABAcSeBABAcSeEABAcSdYeBBAcSdYeEBAdFeMABAdFeMANAbzWcbUABAbzWcbDABAbzWcb",
    "JABAcaGcbUABAbzWcbLA"]

def ignorables : CodeSet :=
  .ofTable
   ["bNAHAMAbKACAcUAFACAFADBtKhJFBFAKBCAjSGiAAGAbYbSCACBCBCAbTAMFLKCAbKALURAdYHCJCDbIACAbFbAdOKcHKF",
    "ADAZXbSCbTAIBHHbQcFcEACAFHFAEGLBOAQAcHAFDJAVBbBADBcGAFBFBDCEAbFBEAMBcGAFECBFAVBXFCAcHADACDJAIB",
    "MBbFAcKANAbZAEAcEACCGCCDIBMBbEAcHADAHAGBVBbDBcGBFDJAVBbEAcVAICCAdNADGMIdVADIKACFcXBbCACACAcENC",
    "ECBGKCbJKAdZDCFCBDBbABFCRDOADBHAQAdRAxLCbkLCbEBbFBbFBcNBCGJADKEAGAbUEcAAcOBbJAePCFBKAHCiMBDAcH",
    "ACGCACADHHJDAbOAJbEbYDbXACECAGAbPINBbHDDBCCcFACBEACCcHHDBcNFdFCCMCGFAHAEBbZcKOAbJdWrEACCMCOCOC",
    "OBNEJBLADADEbYECJCAOARMcAbGejSBeKCeWAQAdTbFbWAsCAbLDEEGAdQFdQCbqbVAbwDFkLAdVDCJCAbDDdDBPbHdBAY",
    "CeACEBJAEAFAbABGAfWBbBROAbNHbAKbVCbXADDDBSAWBcPFDBDBNAJAbKAMAcAACCDBGBCAbCAPBGBCAdXEKCeSADAFAb",
    "dzTAfSQwCPEANPbJADAgOAIAHAMAbKACAbWAbUBcQAWCtUAiTAfUEbnQFCbPCIwLCCBGDbPCFAgKBwCDoYBfYKbYDeUAcD",
    "ObQADBLCbYDDBDAFALAbZCbLECHcLANBcBILDDAdSCDACBHAgFAEHWBcGBEAbMGEEhOHDCCAYAdHFCAFBCBjFDHBCBbCBd",
    "IHDACBeDACADFCAdYCDDCEkAICBjXBCAFAfPDDBFAbHJbPFDDJAKFDCbVMCBpRGCFCAdFVDGCBCBeTFEACBCGCAcVBEACA",
    "nKBibCIusUEcIGKDbnWAcMQcNBCBygQDCGCBeuHBCDgyVbTDWuZCKPDGbFDfTCcyEcCFbXJAPAXECOcaJGCQDGCBCEkCNo",
    "FAcKDcfXGeGHebGEbsxxQAbFdReZjF"]

def caseds : CodeSet :=
  .ofTable
   ["gOALAFAGWCbEChMCDFhZCbJIBbFEdTAbRDDBDDCAHACCCACTCdECfIJgJCbLKbOefGbLCAGADbQDCzXdHDFdfVIIbQDCcN",
    "hJcNkRDFDbLDFDHCACACACbEDcACGCAECCGEDDFFMGCCGeNAOARMdYAFADJCAEEHACACACDCFFADDGEFASbFEBbfMbZcrV",
    "iUHDEBNbLCAGAbtwDbTTbDfDdXEDCcGGBCACEbCBCCbfQbQCMIdBbeaJGNEbnUZHZbtUdBdTbJFbJeNKCOCGCBCKCOCGCB",
    "rKADCCbPCIbvAbYObYelAcLbgiRcLbmlLdGCcSCBDADBDDCLCACGCcMCDDHCGCbBCDCECAEGCnBDYCYCbECYCbECYCbECY",
    "CbECYCHcsZJCTdtIcPdaBZHZHZ"]

def isCased (c : Char) : Bool :=
  if isAscii c then c.isAlpha else caseds.contains c

def upperChar (c : Char) : List Char :=
  if isAscii c then [c.toUpper]
  else (upperExpansions.lookup c.toNat).getD [moveBy upperRuns c]

def titleChar (c : Char) : List Char :=
  if isAscii c then [c.toUpper]
  else match titleExpansions.lookup c.toNat with
    | some expansion => expansion
    | none => if titleRuns.any (·.moves c.toNat) then [moveBy titleRuns c] else upperChar c

def casedNext (cs : List Char) : Bool :=
  match cs.dropWhile ignorables.contains with
  | [] => false
  | c :: _ => isCased c

/-- Lower case of one character, between the text before it (nearest first) and
the text after it: a capital sigma that ends a word becomes a final sigma. -/
def lowerCharAt (before : List Char) (c : Char) (after : List Char) : List Char :=
  if isAscii c then [c.toLower]
  else if c.toNat = 0x3a3 then
    if casedNext before && !casedNext after then [Char.ofNat 0x3c2] else [Char.ofNat 0x3c3]
  else if c.toNat = 0x130 then ['i', Char.ofNat 0x307]
  else [moveBy lowerRuns c]

def lowerFrom (before : List Char) : List Char → List Char
  | [] => []
  | c :: after => lowerCharAt before c after ++ lowerFrom (c :: before) after

def lowerChars (cs : List Char) : List Char := lowerFrom [] cs

def upperChars (cs : List Char) : List Char := cs.flatMap upperChar

def capitalizeChars : List Char → List Char
  | [] => []
  | c :: rest => titleChar c ++ lowerFrom [c] rest

/-- Title case: every cased character that follows an uncased one is in title case,
the others are in lower case. -/
def titleFrom (before : List Char) : List Char → List Char
  | [] => []
  | c :: after =>
    (match before with
      | [] => titleChar c
      | p :: _ => if isCased p then lowerCharAt before c after else titleChar c)
      ++ titleFrom (c :: before) after

def lower (s : String) : String := .ofList (lowerChars s.toList)

def upper (s : String) : String := .ofList (upperChars s.toList)

def titleCase (s : String) : String := .ofList (titleFrom [] s.toList)

end Rulebook.Text
