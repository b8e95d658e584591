/-
  ServedChain — the types of the attributes in names, and their short names.
-/
import ServedChain.Asn1.Value

namespace ServedChain.X509

open Asn1 (Oid)

/-- The short names of the attributes of directories (X.520), by the arc behind 2.5.4. -/
def directoryNames : List (Nat × String) := [
  (3, "CN"), (4, "SN"), (5, "serialNumber"), (6, "C"), (7, "L"), (8, "ST"), (9, "street"),
  (10, "O"), (11, "OU"), (12, "title"), (13, "description"), (14, "searchGuide"),
  (15, "businessCategory"), (16, "postalAddress"), (17, "postalCode"), (18, "postOfficeBox"),
  (19, "physicalDeliveryOfficeName"), (20, "telephoneNumber"), (21, "telexNumber"),
  (22, "teletexTerminalIdentifier"), (23, "facsimileTelephoneNumber"), (24, "x121Address"),
  (25, "internationaliSDNNumber"), (26, "registeredAddress"), (27, "destinationIndicator"),
  (28, "preferredDeliveryMethod"), (29, "presentationAddress"),
  (30, "supportedApplicationContext"), (31, "member"), (32, "owner"), (33, "roleOccupant"),
  (34, "seeAlso"), (35, "userPassword"), (36, "userCertificate"), (37, "cACertificate"),
  (38, "authorityRevocationList"), (39, "certificateRevocationList"),
  (40, "crossCertificatePair"), (41, "name"), (42, "GN"), (43, "initials"),
  (44, "generationQualifier"), (45, "x500UniqueIdentifier"), (46, "dnQualifier"),
  (47, "enhancedSearchGuide"), (48, "protocolInformation"), (49, "distinguishedName"),
  (50, "uniqueMember"), (51, "houseIdentifier"), (52, "supportedAlgorithms"),
  (53, "deltaRevocationList"), (54, "dmdName"), (65, "pseudonym"), (72, "role"),
  (97, "organizationIdentifier"), (98, "c3"), (99, "n3"), (100, "dnsName")]

/-- The short names of the attributes of the directory pilot (RFC 4524), by the arc behind
    0.9.2342.19200300.100.1. -/
def pilotNames : List (Nat × String) := [
  (1, "UID"), (2, "textEncodedORAddress"), (3, "mail"), (4, "info"), (5, "favouriteDrink"),
  (6, "roomNumber"), (7, "photo"), (8, "userClass"), (9, "host"), (10, "manager"),
  (11, "documentIdentifier"), (12, "documentTitle"), (13, "documentVersion"),
  (14, "documentAuthor"), (15, "documentLocation"), (20, "homeTelephoneNumber"),
  (21, "secretary"), (22, "otherMailbox"), (23, "lastModifiedTime"), (24, "lastModifiedBy"),
  (25, "DC"), (26, "aRecord"), (27, "pilotAttributeType27"), (28, "mXRecord"),
  (29, "nSRecord"), (30, "sOARecord"), (31, "cNAMERecord"), (37, "associatedDomain"),
  (38, "associatedName"), (39, "homePostalAddress"), (40, "personalTitle"),
  (41, "mobileTelephoneNumber"), (42, "pagerTelephoneNumber"), (43, "friendlyCountryName"),
  (44, "uid"), (45, "organizationalStatus"), (46, "janetMailbox"), (47, "mailPreferenceOption"),
  (48, "buildingName"), (49, "dSAQuality"), (50, "singleLevelQuality"),
  (51, "subtreeMinimumQuality"), (52, "subtreeMaximumQuality"), (53, "personalSignature"),
  (54, "dITRedirect"), (55, "audio"), (56, "documentPublisher")]

/-- The short names of the attributes of PKCS #9, by the arc behind 1.2.840.113549.1.9. -/
def pkcs9Names : List (Nat × String) := [
  (1, "emailAddress"), (2, "unstructuredName"), (3, "contentType"), (4, "messageDigest"),
  (5, "signingTime"), (6, "countersignature"), (7, "challengePassword"),
  (8, "unstructuredAddress"), (9, "extendedCertificateAttributes"), (14, "extReq"),
  (15, "SMIME-CAPS"), (20, "friendlyName"), (21, "localKeyID")]

/-- The short names of the attributes for the place of incorporation, by the arc behind
    1.3.6.1.4.1.311.60.2.1. -/
def jurisdictionNames : List (Nat × String) := [
  (1, "jurisdictionL"), (2, "jurisdictionST"), (3, "jurisdictionC")]

/-- The short names of the attributes of persons (RFC 3739), by the arc behind
    1.3.6.1.5.5.7.9. -/
def personNames : List (Nat × String) := [
  (1, "id-pda-dateOfBirth"), (2, "id-pda-placeOfBirth"), (3, "id-pda-gender"),
  (4, "id-pda-countryOfCitizenship"), (5, "id-pda-countryOfResidence")]

/-- The short name of an attribute type, if it has one. -/
def shortName? (oid : Oid) : Option String :=
  match oid with
  | [2, 5, 4, n] => directoryNames.lookup n
  | [0, 9, 2342, 19200300, 100, 1, n] => pilotNames.lookup n
  | [1, 2, 840, 113549, 1, 9, n] => pkcs9Names.lookup n
  | [1, 3, 6, 1, 4, 1, 311, 60, 2, 1, n] => jurisdictionNames.lookup n
  | [1, 3, 6, 1, 5, 5, 7, 9, n] => personNames.lookup n
  | _ => none

/-- The type of a common name. -/
def commonName : Oid := [2, 5, 4, 3]

/-- The text of an attribute type: its short name, or at most 79 characters of its arcs. -/
def typeText (oid : Oid) : List Char :=
  match shortName? oid with
  | some name => name.toList
  | none => oid.dotted.toList.take 79

end ServedChain.X509
