/-
Character classes of Unicode 14.

A class is a `CodeSet`, an ordered list of inclusive ranges of code points. In
its table a range is written by its distance from the end of the one before and by
how far it goes. Every class function answers ASCII characters by a rule of its own
and looks at the table only beyond ASCII, so a statement about ASCII text never reads
a table.
-/

namespace Rulebook.Text

structure CodeSet where
  ranges : Array (Nat × Nat)

def hexValue (c : Char) : Nat :=
  if '0' ≤ c ∧ c ≤ '9' then c.toNat - '0'.toNat
  else if 'a' ≤ c ∧ c ≤ 'f' then c.toNat - 'a'.toNat + 10
  else if 'A' ≤ c ∧ c ≤ 'F' then c.toNat - 'A'.toNat + 10
  else 0

def hexNat (cs : List Char) : Nat :=
  cs.foldl (fun n c => 16 * n + hexValue c) 0

def cutAt {α : Type} (p : α → Bool) : List α → List (List α)
  | [] => [[]]
  | a :: rest =>
    if p a then [] :: cutAt p rest
    else match cutAt p rest with
      | [] => [[a]]
      | word :: words => (a :: word) :: words

/-- Reads the numbers of a table: letters are digits in base 26, and the last digit of a number is
a capital letter. -/
def numbersFrom (n : Nat) : List Char → List Nat
  | [] => []
  | c :: rest =>
    if c.isUpper then (26 * n + (c.toNat - 'A'.toNat)) :: numbersFrom 0 rest
    else numbersFrom (26 * n + (c.toNat - 'a'.toNat)) rest

def numbersOf (lines : List String) : List Nat := numbersFrom 0 (lines.flatMap String.toList)

def rangesFrom (n : Nat) : List Nat → List (Nat × Nat)
  | gap :: size :: rest => (n + gap, n + gap + size) :: rangesFrom (n + gap + size) rest
  | _ => []

def CodeSet.ofTable (lines : List String) : CodeSet :=
  ⟨(rangesFrom 0 (numbersOf lines)).toArray⟩

def CodeSet.search (t : CodeSet) (n lo hi : Nat) : Bool :=
  if lo < hi then
    let mid := (lo + hi) / 2
    match t.ranges[mid]? with
    | none => false
    | some (a, b) =>
      if n < a then t.search n lo mid
      else if b < n then t.search n (mid + 1) hi
      else true
  else false
termination_by hi - lo
decreasing_by all_goals omega

def CodeSet.contains (t : CodeSet) (c : Char) : Bool :=
  t.search c.toNat 0 t.ranges.size

def letters : CodeSet :=
  .ofTable
   ["gOALAFAGWCbECrPFLPEIACAfAECBDDCAHACCCACTCdECfIJgJCbLDAHbOcUbAFDbUbQbKBCdUCAQBIBLCDARACbDbEdKMA",
    "ZbGKBFAGVFAKAEAYYIKGXCFSbPcHcBEATAIJQPFHDBDVCGCAEDEARAOBCCPBLAJFFBDVCGCBCBCBbGDCAUCRICCCVCGCBC",
    "EEATAQBYAMHDBDVCGCBCEEAbFBCCQASACFECCDEBCACBEBECELXAcBHCCCWCPEAbBCDADBbFAFHCCCWCJCEEAbGBCBQBSI",
    "CCCbODARAGCJCZFGREXCICADGcHbVCBNGcHBCACECXCACJCBKADECAWDbHAcMHCbJbCEeMbQVARFFDEAEBICFMNASbLCAG",
    "ADbQCmUCDDGCACDDbOCDDbGCDDGCACDDOCcECDDcObMPRdHDFExVDQCZGcWHHIROSPRPMCCQbZbKAFAcQdKIEDbHCAGcRL",
    "bEbYbDDEMbRFZcDWKcAdFAdQbUSHcDbDOBLbRbBbJbQCLbJDIIbQDCbQDCFCBEAGhJcNkRDFDbLDFDHCACACACbEDcACGC",
    "AECCGEDDFFMGCCGeNAOARMdYAFADJCAEEHACACACDCKDDGEFAcBBdzGiUHDEBNbLCAGADcDIARWKGCGCGCGCGCGCGCGdDA",
    "sCBbREGBFdHHCCdLCDGbQCdPSbFbXPtTjtNcNbguEcQbTDkIEPLBVbURbEDcRbYIDdYDcLGBCACEZPCCCDCWbEbZPbXcLF",
    "EACBMbBLWbAbCIbUbDARECJLECbOYCCHVWEAEbXCAEBDEDACAZCDKICNFDFDFKGCGCbQCNHeKbEqnRNWFbWmnDoBDeBbNG",
    "NEGACJCMCECACBCBCeDbInYTcLDcBbPLeNECfEbLZHZMdKEFDFDFDCbKLCZCSCBCODNbJeSpAbCEbWbWbFOTCHHbLLbDDb",
    "JFHbXgBTbJFbJFbNJbZNKCOCGCBCKCOCGCBcQlYKVLHZFCbPCIcSFDACbRCBEADWLWKbEcOSCBLVLZcTcDHBcNAQDCCCbC",
    "bRbCEbCbKHCbBbCcBLVLSOReHcUcEbYObYObJnLbPHBdBbCLAJVbRRbVUbCWNcAcGBDAObSbHYbBbJbEADAJbIEANbVPDW",
    "ACAbKRCYdHGCACDCOCJIbUbNHDBDVCGCBCEEATANEgDcATDVCbFbVVBCAhDbUbQDbLbVVAcIbQOAcUbAbMGhEbReNcLbGH",
    "DADHCBCXQACAdRHDbMRACAbDALbNIAWAMbTUATcUkEICbKSAbYbDeJGCBCbLWAbAFCBCbFPAmQShIAdCbjLiXhNdxLdSQb",
    "pEfzUwKmuCvWIbESdASbDTbVRDbGUGSbaNcLeZcWGAcPMcNBCAbDjbZJbvPbRInfSDCGCBClEbUCSDJpFdkVeCGMEIIJiw",
    "LdGCcSCBDADBDDCLCACGCcMCDDHCGCbBCDCECAEGCnBDYCYCbECYCbECYCbECYCbECYCHcsZbEsObSLGRAmKbDTbRbwVGC",
    "DCBCOChOcIcPIAbuJDCbACBCADACJCDCACAHAFACACACCCBCADACACACACACBCADDCGCDCDCACJCQGCCECQgoBclfBbHgd",
    "SIiNDinPPlbKepKuVcfZhhY"]

def decimals : CodeSet :=
  .ofTable
   ["ckUJfFJhRJpXJePJePJePJePJePJePJePJePJePJdTJePJcTJkTJcTJctRJbNJlPJeZJgLJHJhBJdJJfFJHJcaePJbaDJb",
    "NJhRJXJdJJpRJbfmDJccLJdfZJbfHJeZJcJJfPJkTJnFJePJoLJdZJdZJqHJdZJbdFJjNJcTJbdbJJdJJfFJbpbXbXdnDJ",
    "qHJckLJhbBJ"]

def digits : CodeSet :=
  .ofTable
   ["gWBGAcdRJfFJhRJpXJePJePJePJePJePJePJePJePJePJdTJePJcTJkTJcTJbbSIbrRJbNJlPJeZKgKJHJhBJdJJfFJHJb",
    "oHAEFHJblVIMIMIdMALICAyHICICIbvyCJbaDJbNJhRJXJdJJpRJbfmDJccLJcdBDbcVJlJIsWIMJeZJcJJfPJkTJnFJeP",
    "JoLJdZJdZJqHJdZJbdFJjNJcTJbdbJJdJJfFJbpbXbXdnDJqHJckLJcxJKedIJ"]

def numerics : CodeSet :=
  .ofTable
   ["gWBGADCcdMJfFJhRJpXJePJFFeFJePJePJDFeHMeMJJGeAJeBGISeGJdTJePJcTTkJJcTJbbSTbhYCjGJHJXJlPJeZKgKJ",
    "HJhBJdJJfFJHJboHAEFHJhRbYDEbbZcHdBVyHbDcbIAbdYAbAIPCnGDfJJbFHCObHJbOOmOAeWAbjZAbeXAhcDADAEACAd",
    "GAbVAIACAbPBbFAJAbLAdVApOAcOAbJACACAsAACCHAeNDbeLAuOAIAccFAfCBNCCAbmSAdAAbsOAcsYAbsYAbcQAduUAb",
    "jYAdfUAFAeVAdkBAbLAGAbSAeWAftIJhHJmJFfZJbNJhRJXJdJJpRJbdiOAIAFAcGAbFACAbQAbxZJtAbSNcESBnEbAbLD",
    "bEAJAfFEhVJbkHHbAGbOIcYEXFgFBDPDbTcNIcBBbFCcYEeBHZHbQGmTFbXJlJbEgDJbRDeJGfFbDeZJcJJfPJITjSJnFJ",
    "ePJoLJdZJdZLqFSdQJbdFbCiUJcTJuPUbpCeGbamSJdJJfFJCGbeTWblzMTeFYbqSbXdnDJqHJcfEIeZJbeMcGCCCDcZbS",
    "COblBMedGJbnSAdVAeWAcLAdbDAdLAJAQAmWATAbCAjgXAchKAgqLAoxEAcewHA"]

def blanks : CodeSet :=
  .ofTable
   ["fDAbBAihKAdpOKbEBGAbWAfxXA"]

/-- Printable code points outside ASCII: neither control, format, private, unassigned nor
separator. -/
def printables : CodeSet :=
  .ofTable
   ["gFLCbbLDFFGCACTCpGCbLDbXDCCcCJbAFFSVChJCbVDcGDdWPcGDbWDOCbBDACKGbEKcVCgECHDBDVCGCAEDDIDBDDJAFB",
    "CEDYDCCFFBDVCGCBCBCBDACEFBDCEAIDCAIQLCCICCCVCGCBCEDJCCCCDAQDDLIGCCCHDBDVCGCBCEDIDBDCICFBCEDRLB",
    "CFECCDEBCACBEBECELFEECCDDAHAPUGMCCCWCPDICCCDIBCCDADDDJIVCCCWCJCEDICCCDIBHBCDDJCBOMCCCbYCCCFFPD",
    "ZCCCREXCICADGEAFFCACHHJDCNcFFbCbMBCACECXCACWDECACFDJDDbHcTCbJFbMCbJCOCMbMhPCAGADoMCDDGCACDDbOC",
    "DDbGCDDGCACDDOCcECDDcODbFEZHdHDFDyPCbBEdKIVKXKTNMCCCBNdPDJHJHNCKHdKIbQGcRLbECLFLFAEbPDEMbRFZHK",
    "EcJDcMCbCDKHJHNDbEbYcYEbUCeLJcHEOEcHIbQDKJbQGuNDFDbLDFDHCACACACbEDcACOCNDFCSDCCISXJbUSBDbACMEb",
    "GQbGQfJFzMbAKWcrRDbFCnKGbSCAGADcDIBPXKGCGCGCGCGCGCGCGCeVbJZCdKNiFbBLGcKCdHDdYGbQCdPCdFNbUCbriQ",
    "EcCKnJVhBJhUGBCACEZcGEJHcDJcRJLHeLMbDEcZCKFbGCcCKNDJDdYZbBLFDFDFKGCGCcHFeVDJHqnRNWFbWmnDoBDeBb",
    "NGNEGZCECACBCBCeURrCDcBIAbHbPHbYCSCDFECfEFhHEFDFDFDCEGCGOBDLCZCSCBCODNbJeSGCFbSEdJCMEAbWbTfBbC",
    "EbWQbBFbJKbDGbQGbDCbKFNbRgBDJHbJFbJFbNJbZMLCOCGCBCKCOCGCBcQlYKVLHZFCbPCIcSFDACbRCBEADWCcTJIbXS",
    "CBGbGEbAGAcNcDFTDbXCBGHCCCbCDCFJIIIcLbHbMFLKcBEbCDbAGZIDNGdDcUcEbYObYIbTJJlJbECbPCCDBdBbNJbPXZ",
    "bNbBVWKcZFbJKcJCEOYIJHcACRJbMKdRCTMRCbRcOGCACDCOCKHcGGJHDCHDBDVCGCBCECJDBDCDAHAGGDGEEfKdNCEbFc",
    "TJJgLcBDbLbJcQMJHMUcFHJcDbADOFWhEcHdXdENHDADHCBCbDCBDLKJcTHDbTDKbCcTJdEOcUkEICbSCNLbCEbFDVCNcW",
    "GCBCbREACBCIJJHFCBCbKCBCFIJlZYhCAQbXObjMdZeGCEMhNdxLdUObpEfzUwKmuCvWIbECJFdCCJHbDDFLcRLJCGCUGS",
    "baNdMdYcWFcEIQcNEMBPjbZJbvPbRInfSDCGCBClEbUCSDJpFdkVeCGMEIIJDDgyZbTDWKeLcJjLLbMDcVJeHWcRfZTNdI",
    "KYfGdGCcSCBDADBDDCLCACGCcMCDDHCGCbBCDCECAEGCnBDlFDbaZQECObqNbEiSGCQDGCBCEiGbSENDJFBmJbEScFGAbw",
    "BGCDCBCOChODPbQcXFJFBbeGcPcZcIhNDCbACBCADACJCDCACAHAFACACACCCBCADACACACACACBCADDCGCDCDCACJCQGC",
    "CECQcBBkLbRFdVNODOCOCbKLgRcFbCObRFIIBPFfZblVGPEMEeLNdKILFAQLFcDJJHbNJbDDBdBnBNNDEEEEGKbCEKGFLJ",
    "HHJGKfQCcCbMJbnRclfBbHgdSIiNDinPPlbKepKuVcfZhhYbotmSjF"]

def isAscii (c : Char) : Bool := c.toNat < 128

def isLetter (c : Char) : Bool :=
  if isAscii c then c.isAlpha else letters.contains c

def isDecimal (c : Char) : Bool :=
  if isAscii c then c.isDigit else decimals.contains c

def isDigit (c : Char) : Bool :=
  if isAscii c then c.isDigit else digits.contains c

def isNumeric (c : Char) : Bool :=
  if isAscii c then c.isDigit else numerics.contains c

def isAlphanumeric (c : Char) : Bool := isLetter c || isNumeric c

def isWord (c : Char) : Bool := isAlphanumeric c || c == '_'

/-- White space; in ASCII the blank, the tab to carriage-return block and the four
information separators. -/
def isBlank (c : Char) : Bool :=
  if isAscii c then
    c == ' ' || (9 ≤ c.toNat && c.toNat ≤ 13) || (28 ≤ c.toNat && c.toNat ≤ 31)
  else blanks.contains c

def isPrintable (c : Char) : Bool :=
  if isAscii c then 32 ≤ c.toNat && c.toNat < 127 else printables.contains c

def decimalValue? (c : Char) : Option Nat :=
  if isAscii c then
    if c.isDigit then some (c.toNat - '0'.toNat) else none
  else
    (decimals.ranges.find? fun r => r.1 ≤ c.toNat && c.toNat ≤ r.2).map
      fun r => (c.toNat - r.1) % 10

end Rulebook.Text
